import Mathlib.Data.Nat.Find
import LazyTcp.General.Run
import LazyTcp.Legacy.Machine

/-! One client stream through the first stack. The receive variable is moved by
the payload length of a data segment and by the sequence number of a FIN, and
neither is compared with what was received before. -/
namespace LazyTcp.Legacy
open General General.Wire

/-- The bytes a client sends from sequence number irs + 1 on; a FIN follows them. -/
structure Stream where
  irs : U32
  data : List U8

/-- What one segment of the client carries: payload by offset and length, and
the FIN behind the last byte. -/
inductive Piece where
  | syn
  | ack
  | data (off n : Nat)
  | fin (off n : Nat)
  deriving DecidableEq, Repr

/-- The stream positions a piece covers; the FIN is the position after its payload. -/
def Piece.covers : Piece → Nat → Bool
  | .data off n, i => decide (off ≤ i ∧ i < off + n)
  | .fin off n, i => decide (off ≤ i ∧ i < off + n + 1)
  | _, _ => false

def Piece.stop : Piece → Nat
  | .data off n => off + n
  | .fin off n => off + n + 1
  | _ => 0

/-- Every position before k is covered. -/
def Covered (ps : List Piece) (k : Nat) : Prop := ∀ i, i < k → ∃ p ∈ ps, p.covers i = true

instance (ps : List Piece) : DecidablePred (Covered ps) :=
  fun k => inferInstanceAs (Decidable (∀ i, i < k → ∃ p ∈ ps, p.covers i = true))

/-- Length of the longest contiguous prefix the pieces cover. -/
def coveredPrefix (ps : List Piece) : Nat := Nat.findGreatest (Covered ps) ((ps.map Piece.stop).foldr max 0)

theorem Covered.mono {ps qs : List Piece} {k : Nat} (h : Covered ps k) (hs : ∀ p ∈ ps, p ∈ qs) : Covered qs k := by
  intro i hi
  obtain ⟨p,hp,hc⟩ := h i hi
  exact ⟨p,hs p hp,hc⟩

private theorem stop_of_covers {p : Piece} {i : Nat} (h : p.covers i = true) : i < p.stop := by
  cases p with
  | syn | ack => cases h
  | data off n | fin off n => exact (of_decide_eq_true h).2

private theorem stop_le_max {p : Piece} {ps : List Piece} (h : p ∈ ps) : p.stop ≤ (ps.map Piece.stop).foldr max 0 := by
  induction ps with
  | nil => cases h
  | cons q ps ih =>
    rw [List.map_cons, List.foldr_cons]
    rcases List.mem_cons.mp h with rfl | h
    · exact le_max_left ..
    · exact (ih h).trans (le_max_right ..)

/-- The prefix length is the greatest number of positions that is covered. -/
theorem covered_iff_le (ps : List Piece) (k : Nat) : Covered ps k ↔ k ≤ coveredPrefix ps := by
  constructor
  · intro h
    apply Nat.le_findGreatest _ h
    cases k with
    | zero => exact Nat.zero_le _
    | succ k =>
      obtain ⟨p,hp,hc⟩ := h k (Nat.lt_succ_self k)
      exact (stop_of_covers hc).trans_le (stop_le_max hp)
  · intro h i hi
    have hspec : Covered ps (coveredPrefix ps) :=
      Nat.findGreatest_spec (Nat.zero_le _) fun i hi => absurd hi (Nat.not_lt_zero i)
    exact hspec i (hi.trans_le h)

/-- The segment in the buffer carries the piece of the stream. -/
def Carries (st : Stream) (m : Mem) (o : Nat) : Piece → Prop
  | .syn => synFlag m o = true ∧ finFlag m o = false ∧ ntohl (tcpSeqNum m o) = st.irs ∧ dataLen m o = 0
  | .ack => synFlag m o = false ∧ finFlag m o = false ∧ dataLen m o = 0
  | .data off n => synFlag m o = false ∧ finFlag m o = false ∧ ntohl (tcpSeqNum m o) = st.irs + 1 + .ofNat 32 off ∧
      off + n ≤ st.data.length ∧ payload m o = (st.data.drop off).take n
  | .fin off n => synFlag m o = false ∧ finFlag m o = true ∧ ntohl (tcpSeqNum m o) = st.irs + 1 + .ofNat 32 off ∧
      off + n = st.data.length ∧ payload m o = st.data.drop off

instance (st : Stream) (m : Mem) (o : Nat) : (p : Piece) → Decidable (Carries st m o p)
  | .syn | .ack | .data _ _ | .fin _ _ => inferInstanceAs (Decidable (_ ∧ _))

/-- A delivered packet: a segment of the client without RST, or any packet of
another connection. Nothing is said about which segments are delivered, how
often and in which order. -/
structure Delivery (x : ConnectionID) (st : Stream) where
  buf : Mem
  offset : Nat
  env : Env
  piece : Option Piece
  carried : match piece with
    | none => segId buf offset ≠ x
    | some p => segId buf offset = x ∧ rstFlag buf offset = false ∧ Carries st buf offset p

/-- The server, none once it has died, and the ranges of the stream that were
handed to http_handle_request. -/
structure Receiver where
  server : Option Server
  handed : List (Nat × Nat)

def Receiver.start : Receiver := ⟨some tcpInitServerInstance,[]⟩

def Piece.offset : Piece → Nat
  | .data off _ => off
  | .fin off _ => off
  | _ => 0

section Run
variable {x : ConnectionID} {st : Stream}

/-- The range of the stream a dispatch handed over, if it made the call. -/
def handedBy (d : Delivery x st) (out : Outcome) : List (Nat × Nat) :=
  match d.piece, out.request with
  | some p, some bytes => [(p.offset,bytes.length)]
  | _, _ => []

def receive (h : Receiver) (d : Delivery x st) : Receiver :=
  match h.server with
  | none => h
  | some s =>
    match tcpDispatch d.env s d.buf d.offset with
    | none => { h with server := none }
    | some out => ⟨some out.server,h.handed ++ handedBy d out⟩

/-- The pieces delivered so far. -/
def pieces (inputs : List (Delivery x st)) : List Piece := inputs.filterMap Delivery.piece

/-- How many bytes were handed over, and how often the byte at a position was. -/
def handedBytes (handed : List (Nat × Nat)) : Nat := (handed.map Prod.snd).sum
def handedCount (handed : List (Nat × Nat)) (i : Nat) : Nat :=
  handed.countP fun r => decide (r.1 ≤ i ∧ i < r.1 + r.2)

/-- On an established connection payload starts where the bytes handed over so
far end, and a FIN segment starts no later. -/
def InOrder (h : Receiver) (d : Delivery x st) : Prop :=
  ∀ s con, h.server = some s → tcpGetState s x = some con → con.state = .established →
    match d.piece with
    | some (.data off _) => off = handedBytes h.handed
    | some (.fin off _) => off ≤ handedBytes h.handed
    | _ => True

/-- Where the block stands in the stream. -/
def Follows (st : Stream) (ps : List Piece) (handed : List (Nat × Nat)) : Option TCB → Prop
  | none => handed = []
  | some con => match con.state with
    | .synReceived => con.recv.next = st.irs + 1 ∧ handed = []
    | .established => con.recv.next = st.irs + 1 + .ofNat 32 (handedBytes handed)
    | .closeWait => ∃ k, con.recv.next = st.irs + 1 + .ofNat 32 k ∧ Covered ps k
    | _ => True

/-- What was handed over is a prefix of the stream, each byte once, and the block follows it. -/
structure Intact (x : ConnectionID) (st : Stream) (ps : List Piece) (h : Receiver) : Prop where
  once : ∀ i, handedCount h.handed i = if i < handedBytes h.handed then 1 else 0
  covered : Covered ps (handedBytes h.handed)
  unique : ∀ s, h.server = some s → s.Unique
  follows : ∀ s, h.server = some s → Follows st ps h.handed (tcpGetState s x)

private theorem Follows.mono {ps qs : List Piece} {handed : List (Nat × Nat)} {c : Option TCB}
    (h : Follows st ps handed c) (hs : ∀ p ∈ ps, p ∈ qs) : Follows st qs handed c := by
  cases c with
  | none => exact h
  | some con =>
    obtain ⟨id,state,send,recv⟩ := con
    cases state with
    | closeWait =>
      obtain ⟨k,hk,hc⟩ := h
      exact ⟨k,hk,hc.mono hs⟩
    | synReceived | established | closing | lastAck | timeWait => exact h

private theorem handedBytes_snoc (handed : List (Nat × Nat)) (off n : Nat) :
    handedBytes (handed ++ [(off,n)]) = handedBytes handed + n := by
  simp [handedBytes]

private theorem handedCount_snoc (handed : List (Nat × Nat)) (off n i : Nat) :
    handedCount (handed ++ [(off,n)]) i = handedCount handed i + if off ≤ i ∧ i < off + n then 1 else 0 := by
  simp only [handedCount, List.countP_append, List.countP_singleton, decide_eq_true_eq]

private theorem payload_length (m : Mem) (o : Nat) : (payload m o).length = dataLen m o := by
  rw [payload, List.length_map, List.length_range]

/-- A step that hands nothing over. -/
private theorem Intact.quiet {ps qs : List Piece} {h : Receiver} (hi : Intact x st ps h) (hs : ∀ p ∈ ps, p ∈ qs)
    {s : Server} (hu : s.Unique) (hf : Follows st qs h.handed (tcpGetState s x)) :
    Intact x st qs ⟨some s,h.handed⟩ := by
  refine ⟨hi.once,hi.covered.mono hs,fun t ht => ?_,fun t ht => ?_⟩ <;> cases ht
  · exact hu
  · exact hf

/-- A step that hands over the payload behind what was handed over so far. -/
private theorem Intact.handed {ps : List Piece} {h : Receiver} (hi : Intact x st ps h) {n : Nat} {s : Server}
    (hu : s.Unique)
    (hf : Follows st (ps ++ [.data (handedBytes h.handed) n]) (h.handed ++ [(handedBytes h.handed,n)])
      (tcpGetState s x)) :
    Intact x st (ps ++ [.data (handedBytes h.handed) n]) ⟨some s,h.handed ++ [(handedBytes h.handed,n)]⟩ := by
  refine ⟨fun i => ?_,fun i hlt => ?_,fun t ht => ?_,fun t ht => ?_⟩
  · rw [handedCount_snoc, handedBytes_snoc, hi.once i]
    split_ifs <;> omega
  · rw [handedBytes_snoc] at hlt
    by_cases hold : i < handedBytes h.handed
    · obtain ⟨p,hp,hc⟩ := hi.covered i hold
      exact ⟨p,List.mem_append_left _ hp,hc⟩
    · exact ⟨_,List.mem_append_right _ List.mem_cons_self,decide_eq_true ⟨Nat.le_of_not_lt hold,hlt⟩⟩
  · cases ht
    exact hu
  · cases ht
    exact hf

/-- A FIN that starts inside what was handed over leaves no gap before it. -/
private theorem covered_fin {ps : List Piece} {k off n : Nat} (h : Covered ps k) (hle : off ≤ k) :
    Covered (ps ++ [.fin off n]) (off + 1) := by
  intro i hi
  by_cases hlt : i < off
  · obtain ⟨p,hp,hc⟩ := h i (hlt.trans_le hle)
    exact ⟨p,List.mem_append_left _ hp,hc⟩
  · refine ⟨_,List.mem_append_right _ List.mem_cons_self,decide_eq_true ?_⟩
    omega

private theorem carries_syn {m : Mem} {o : Nat} {p : Piece} (h : Carries st m o p) (hs : synFlag m o = true) :
    ntohl (tcpSeqNum m o) = st.irs := by
  cases p with
  | syn => exact h.2.2.1
  | ack | data | fin => exact absurd (hs.symm.trans h.1) (by decide)

private theorem carries_fin {m : Mem} {o : Nat} {p : Piece} (h : Carries st m o p) (hf : finFlag m o = true) :
    ∃ off n, p = .fin off n ∧ ntohl (tcpSeqNum m o) = st.irs + 1 + .ofNat 32 off := by
  cases p with
  | fin off n => exact ⟨off,n,rfl,h.2.2.1⟩
  | syn | ack | data => exact absurd (hf.symm.trans h.2.1) (by decide)

private theorem carries_data {m : Mem} {o : Nat} {p : Piece} (h : Carries st m o p) (hf : finFlag m o = false)
    (hd : dataLen m o ≠ 0) : ∃ off, p = .data off (dataLen m o) := by
  cases p with
  | syn => exact absurd h.2.2.2 hd
  | ack => exact absurd h.2.2 hd
  | fin => exact absurd (hf.symm.trans h.2.1) (by decide)
  | data off n =>
    obtain ⟨-,-,-,hle,hp⟩ := h
    refine ⟨off,?_⟩
    rw [← payload_length, hp, List.length_take, List.length_drop, min_eq_left (by omega)]

/-- Step lemma for the segments of the stream, one case per transition. -/
private theorem Intact.segment {ps : List Piece} {h : Receiver} (hi : Intact x st ps h) {s : Server}
    (hs : h.server = some s) {m : Mem} {o : Nat} {env : Env} {out : Outcome} (hid : segId m o = x)
    (hr : rstFlag m o = false) {p : Piece} (hp : Carries st m o p)
    (hin : ∀ con, tcpGetState s x = some con → con.state = .established → match p with
      | .data off _ => off = handedBytes h.handed
      | .fin off _ => off ≤ handedBytes h.handed
      | _ => True)
    (hd : tcpDispatch env s m o = some out) :
    Intact x st (ps ++ [p]) ⟨some out.server,h.handed ++ (out.request.toList.map fun b => (p.offset,b.length))⟩ := by
  obtain ⟨r,htr,href⟩ := tcpDispatch_transition (hi.unique s hs) hd
  have hfol := hi.follows s hs
  have hown := (href.find x).trans (if_pos hid.symm)
  have hmono : ∀ q ∈ ps, q ∈ ps ++ [p] := fun q hq => List.mem_append_left _ hq
  rw [hid] at htr
  generalize hf : tcpGetState s x = c at htr hfol hin
  have quiet (hreq : r.request = none) (hnew : Follows st (ps ++ [p]) h.handed r.con) :
      Intact x st (ps ++ [p])
        ⟨some out.server,h.handed ++ (out.request.toList.map fun b => (p.offset,b.length))⟩ := by
    rw [href.request, hreq, Option.toList_none, List.map_nil, List.append_nil]
    exact hi.quiet hmono href.unique (hown ▸ hnew)
  cases htr with
  | strayReset hrst => exact absurd (hrst.symm.trans hr) (by decide)
  | reset con hrst | ignoreReset con hrst => exact absurd (hrst.symm.trans hr) (by decide)
  | refuse | badAck | unexpected | empty | closed => exact quiet rfl (hfol.mono hmono)
  | opening _ hsyn =>
    refine quiet rfl ⟨?_,hfol⟩
    rw [← carries_syn hp hsyn]
    rfl
  | repeated con _ hst hsyn =>
    rw [Follows, hst] at hfol
    refine quiet rfl ?_
    rw [Follows, synNumbers_state, hst, ← carries_syn hp hsyn]
    exact ⟨rfl,hfol.2⟩
  | establish con _ hst =>
    rw [Follows, hst] at hfol
    refine quiet rfl ?_
    rw [hfol.2]
    exact hfol.1.trans (BitVec.add_zero _).symm
  | finish con _ hst hfin =>
    obtain ⟨off,n,rfl,hseq⟩ := carries_fin hp hfin
    refine quiet rfl ⟨off + 1,?_,covered_fin hi.covered (hin con rfl hst)⟩
    rw [BitVec.ofNat_add, ← BitVec.add_assoc, ← hseq]
    rfl
  | payload con _ hst hfin hlen =>
    obtain ⟨off,rfl⟩ := carries_data hp hfin hlen
    have hoff : off = handedBytes h.handed := hin con rfl hst
    subst hoff
    rw [Follows, hst] at hfol
    rw [href.request, Option.toList_some, List.map_singleton, payload_length]
    refine hi.handed href.unique ?_
    rw [hown, Follows, tcpSendAck_state, advanced_state, hst, handedBytes_snoc, BitVec.ofNat_add,
      ← BitVec.add_assoc, ← hfol]
    rfl

private theorem handedBy_piece {d : Delivery x st} {p : Piece} (hp : d.piece = some p) (out : Outcome) :
    handedBy d out = out.request.toList.map fun b => (p.offset,b.length) := by
  rw [handedBy, hp]
  cases out.request <;> rfl

/-- One delivery keeps the invariant; packets of other connections do not touch the block. -/
private theorem receive_intact {inputs : List (Delivery x st)} {h : Receiver} (hi : Intact x st (pieces inputs) h)
    {d : Delivery x st} (hin : InOrder h d) : Intact x st (pieces (inputs ++ [d])) (receive h d) := by
  have hps : pieces (inputs ++ [d]) = pieces inputs ++ d.piece.toList := by
    cases hp : d.piece <;> simp [pieces, hp]
  have hmono : ∀ q ∈ pieces inputs, q ∈ pieces (inputs ++ [d]) := by
    intro q hq
    rw [hps]
    exact List.mem_append_left _ hq
  have dead (hs : (receive h d).server = none) (hh : (receive h d).handed = h.handed) :
      Intact x st (pieces (inputs ++ [d])) (receive h d) := by
    refine ⟨hh ▸ hi.once,hh ▸ hi.covered.mono hmono,fun s e => ?_,fun s e => ?_⟩ <;>
      exact absurd (hs.symm.trans e) nofun
  cases hs : h.server with
  | none => exact dead (by simp only [receive, hs]) (by simp only [receive, hs])
  | some s =>
    cases hd : tcpDispatch d.env s d.buf d.offset with
    | none => exact dead (by simp only [receive, hs, hd]) (by simp only [receive, hs, hd])
    | some out =>
      have hc := d.carried
      simp only [receive, hs, hd]
      cases hp : d.piece with
      | none =>
        rw [hp] at hc
        obtain ⟨r,-,href⟩ := tcpDispatch_transition (hi.unique s hs) hd
        rw [show handedBy d out = [] by rw [handedBy, hp], List.append_nil]
        refine hi.quiet hmono href.unique ?_
        rw [href.find, if_neg (Ne.symm hc)]
        exact (hi.follows s hs).mono hmono
      | some p =>
        rw [hp] at hc
        rw [handedBy_piece hp, hps, hp]
        refine hi.segment hs hc.1 hc.2.1 hc.2.2 (fun con hf hst => ?_) hd
        have := hin s con hs hf hst
        rw [hp] at this
        cases p <;> exact this

private theorem run_intact {inputs : List (Delivery x st)} (hin : Along receive InOrder .start inputs) :
    Intact x st (pieces inputs) (run receive .start inputs) := by
  refine Along.history (P := fun inputs h => Intact x st (pieces inputs) h) ?_ ?_ hin
  · refine ⟨fun _ => rfl,fun i hi => absurd hi (Nat.not_lt_zero i),?_,?_⟩ <;> intro s hs <;> cases hs
    · exact List.nodup_nil
    · rfl
  · intro inputs d hi hd
    exact receive_intact hi hd

private theorem distance_le {irs next : U32} {k n : Nat} (h : next = irs + 1 + .ofNat 32 k) (hk : k ≤ n) :
    (next - (irs + 1)).toNat ≤ n := by
  rw [h, BitVec.add_comm, BitVec.add_sub_cancel, BitVec.toNat_ofNat]
  exact (Nat.mod_le _ _).trans hk

/-- Over every run in which established connections see their stream in order:
the receive variable is not ahead of the contiguous prefix that was delivered,
and no byte was handed to http_handle_request twice. -/
theorem stream_acknowledged (x : ConnectionID) (st : Stream) (inputs : List (Delivery x st))
    (hin : Along receive InOrder .start inputs) :
    (∀ s con, (run receive .start inputs).server = some s → tcpGetState s x = some con →
      con.state = .established ∨ con.state = .closeWait →
      (con.recv.next - (st.irs + 1)).toNat ≤ coveredPrefix (pieces inputs)) ∧
    ∀ i, handedCount (run receive .start inputs).handed i ≤ 1 := by
  have hi := run_intact hin
  refine ⟨fun s con hs hf hst => ?_,fun i => ?_⟩
  · have hfol := hi.follows s hs
    rw [hf] at hfol
    rcases hst with hst | hst <;> rw [Follows, hst] at hfol
    · exact distance_le hfol ((covered_iff_le _ _).mp hi.covered)
    · obtain ⟨k,hk,hc⟩ := hfol
      exact distance_le hk ((covered_iff_le _ _).mp hc)
  · rw [hi.once]
    split <;> decide

end Run

/-- The stream "GET /" from sequence number 101 on. -/
private def request : Stream := ⟨100,[0x47,0x45,0x54,0x20,0x2F]⟩

private def synPacket : Delivery clientId request :=
  ⟨craft clientId SYN 100 0 [],20,⟨77,true,.missing⟩,some .syn,by decide +kernel⟩
private def ackPacket : Delivery clientId request :=
  ⟨craft clientId ACK 101 78 [],20,⟨0,true,.missing⟩,some .ack,by decide +kernel⟩
private def dataPacket : Delivery clientId request :=
  ⟨craft clientId (PSH ||| ACK) 101 78 request.data,20,⟨0,true,.missing⟩,some (.data 0 5),by decide +kernel⟩
private def finPacket : Delivery clientId request :=
  ⟨craft clientId (FIN ||| ACK) 106 78 [],20,⟨0,true,.missing⟩,some (.fin 5 0),by decide +kernel⟩

/-- State and receive variable of the client's block after the deliveries. -/
private def received (inputs : List (Delivery clientId request)) : Option (TCPState × U32) :=
  ((run receive .start inputs).server.bind (tcpGetState · clientId)).map fun con => (con.state,con.recv.next)

/-- The whole stream in order. -/
theorem stream_acknowledged_in_order :
    received [synPacket,ackPacket,dataPacket,finPacket] = some (.closeWait,107) ∧
    coveredPrefix (pieces [synPacket,ackPacket,dataPacket,finPacket]) = 6 ∧
    ∀ i, handedCount (run receive .start [synPacket,ackPacket,dataPacket,finPacket]).handed i ≤ 1 := by
  refine ⟨by decide +kernel,by decide +kernel,(stream_acknowledged clientId request _ ?_).2⟩
  have hbefore : handedBytes (run receive .start [synPacket,ackPacket]).handed = 0 := by decide +kernel
  have hafter : handedBytes (run receive .start [synPacket,ackPacket,dataPacket]).handed = 5 := by decide +kernel
  exact ⟨fun _ _ _ _ _ => trivial,fun _ _ _ _ _ => trivial,fun _ _ _ _ _ => hbefore.symm,
    fun _ _ _ _ _ => hafter.ge,trivial⟩

/-- A data segment delivered twice is acknowledged and answered twice; a FIN
that overtakes the data acknowledges bytes that never arrived. -/
theorem repeated_data_runs_ahead :
    received [synPacket,ackPacket,dataPacket,dataPacket] = some (.established,101 + 10) ∧
    coveredPrefix (pieces [synPacket,ackPacket,dataPacket,dataPacket]) = 5 ∧
    handedCount (run receive .start [synPacket,ackPacket,dataPacket,dataPacket]).handed 0 = 2 ∧
    received [synPacket,ackPacket,finPacket] = some (.closeWait,101 + 6) ∧
    coveredPrefix (pieces [synPacket,ackPacket,finPacket]) = 0 :=
  ⟨by decide +kernel,by decide +kernel,by decide +kernel,by decide +kernel,by decide +kernel⟩

end LazyTcp.Legacy
