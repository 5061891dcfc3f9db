import LazyTcp.Refactor.Leakage
import LazyTcp.Refactor.LogStream

/-! The server with its one reused buffer against a relay that handles each
packet in a buffer of its own. They agree for as long as no reply is made of
bytes that earlier packets left behind. -/
namespace LazyTcp.Refactor
open General General.Wire

/-- The connections of a table and the traffic so far. -/
def relayStep (r : HashTable × List (Bool × List U8)) (t : Turn) : HashTable × List (Bool × List U8) :=
  let reply := netDemux t.env r.1 (tunRead (fun _ => 0) t.packet) t.packet.length
  let sent := if reply.ret = 0 then [] else [(false,reply.buf.bytes 0 reply.ret)]
  (reply.table,r.2 ++ (true,t.packet) :: sent)

def relay (turns : List Turn) : HashTable × List (Bool × List U8) := run relayStep (.empty,[]) turns

/-- The packet about to be handled is self-contained, and no allocation fails. -/
def Session.Contained (s : Session) : Happening → Prop
  | .server _ _ _ =>
    match s.server.place with
    | .demuxing t => SelfContained s.server.table s.server.tu t.packet.length ∧ t.env.allocs = .succeed
    | _ => True
  | _ => True

structure SameConnections (ht ht' : HashTable) : Prop where
  wf : ht.WF
  wf' : ht'.WF
  find : ∀ id, hashFind ht id = hashFind ht' id

section Demux
variable {ht ht' : HashTable} {m m' : Mem} {len : Nat} {env : Env}

private theorem netDemux_wf (h : ht.WF) : (netDemux env ht m len).table.WF := by
  cases hv : ipValidate m len with
  | false =>
    rw [netDemux_invalid env ht hv]
    exact h
  | true =>
    by_cases htcp : ipProto m = PROTO_TCP
    · rw [netDemux_tcp env ht hv htcp]
      exact ((Packet.demuxed m len hv).refines h env).wf
    · by_cases hicmp : ipProto m = PROTO_ICMP
      · rw [netDemux_icmp env ht hv hicmp]
        exact h
      · rw [netDemux_other env ht hv hicmp htcp]
        exact h

/-- With memory to spare the reply depends on the connections only, not on how
the table holds them. -/
private theorem netDemux_connections (h : SameConnections ht ht') (ha : env.allocs = .succeed) :
    (netDemux env ht m len).ret = (netDemux env ht' m len).ret ∧
      (netDemux env ht m len).buf = (netDemux env ht' m len).buf ∧
      ∀ id, hashFind (netDemux env ht m len).table id = hashFind (netDemux env ht' m len).table id := by
  cases hv : ipValidate m len with
  | false =>
    rw [netDemux_invalid env ht hv, netDemux_invalid env ht' hv]
    exact ⟨rfl,rfl,h.find⟩
  | true =>
    by_cases htcp : ipProto m = PROTO_TCP
    · have hr := (Packet.demuxed m len hv).refines h.wf env
      have hr' := (Packet.demuxed m len hv).refines h.wf' env
      rw [freshBlock_succeed ha, h.find] at hr
      rw [freshBlock_succeed ha] at hr'
      rw [netDemux_tcp env ht hv htcp, netDemux_tcp env ht' hv htcp]
      have hreply := hr.reply.trans hr'.reply.symm
      refine ⟨congrArg Prod.fst hreply,congrArg Prod.snd hreply,fun id => ?_⟩
      rw [hr.find, hr'.find, h.find]
    · by_cases hicmp : ipProto m = PROTO_ICMP
      · rw [netDemux_icmp env ht hv hicmp, netDemux_icmp env ht' hv hicmp]
        exact ⟨rfl,rfl,h.find⟩
      · rw [netDemux_other env ht hv hicmp htcp, netDemux_other env ht' hv hicmp htcp]
        exact ⟨rfl,rfl,h.find⟩

/-- Step lemma: a self-contained packet gets the relay's reply. -/
private theorem netDemux_relayed (h : SameConnections ht ht') (hm : Mem.AgreeOn (· < len) m m')
    (hs : SelfContained ht m len) (ha : env.allocs = .succeed) :
    (netDemux env ht m len).ret = (netDemux env ht' m' len).ret ∧
      (netDemux env ht m len).buf.bytes 0 (netDemux env ht m len).ret =
        (netDemux env ht' m' len).buf.bytes 0 (netDemux env ht' m' len).ret ∧
      SameConnections (netDemux env ht m len).table (netDemux env ht' m' len).table := by
  have hleak := hs.noLeak h.wf env m' hm
  have hsame : (netDemux env ht m' len).ret = (netDemux env ht' m' len).ret ∧
      (netDemux env ht m' len).buf = (netDemux env ht' m' len).buf ∧
      ∀ id, hashFind (netDemux env ht m' len).table id = hashFind (netDemux env ht' m' len).table id :=
    netDemux_connections h ha
  obtain ⟨hret,hbuf,hfind⟩ := hsame
  refine ⟨hleak.ret.trans hret,?_,netDemux_wf h.wf,netDemux_wf h.wf',fun id => (hleak.find id).trans (hfind id)⟩
  rw [← hret, ← hleak.ret, ← hbuf, Mem.bytes, Mem.bytes]
  refine List.map_congr_left fun k hk => ?_
  rw [Nat.zero_add]
  exact hleak.bytes k (List.mem_range.mp hk)

end Demux

/-- The invariant, by what the server is about to do. -/
def Server.Relays (v : Server) : Prop :=
  match v.place with
  | .demuxing t => ∃ turns, v.turns = turns ++ [t] ∧ SameConnections v.table (relay turns).1 ∧
      v.traffic = (relay turns).2 ++ [(true,t.packet)] ∧
      Mem.AgreeOn (· < t.packet.length) v.tu (tunRead (fun _ => 0) t.packet)
  | .faulted => True
  | _ => SameConnections v.table (relay v.turns).1 ∧ v.traffic ++ v.outgoing = (relay v.turns).2

private theorem relays_log {s : Session} (h : s.server.Relays) (tu : Option Mem) (len : Nat) (dir : U8)
    (now : BitVec 64) (written : Bool) : (s.log tu len dir now written).server.Relays := by
  rw [Session.log]
  split
  · split
    · trivial
    · split
      · exact h
      · exact h
  · exact h

private theorem tunRead_agree (tu : Mem) (packet : List U8) :
    Mem.AgreeOn (· < packet.length) (tunRead tu packet) (tunRead (fun _ => 0) packet) := by
  intro i (hi : i < packet.length)
  simp [tunRead, hi]

private theorem relay_snoc (turns : List Turn) (t : Turn) : relay (turns ++ [t]) = relayStep (relay turns) t := run_snoc ..

private theorem relays_server {s : Session} (h : s.server.Relays) (t : Turn) (now : BitVec 64) (written : Bool)
    (hc : s.Contained (.server t now written)) : (serverRun s t now written).server.Relays := by
  obtain ⟨⟨tu,table,shutdown,logging,place,turns,traffic⟩,pipe,viewer,exited⟩ := s
  cases place with
  | done | faulted => exact h
  | head =>
    cases shutdown with
    | true =>
      exact relays_log (s := ⟨⟨tu,table,true,logging,.done,turns,traffic⟩,pipe,viewer,exited⟩) h none 0 LOG_SHUTDOWN now
        written
    | false => exact h
  | reading =>
    simp only [serverRun]
    split
    · exact h
    · refine relays_log ?_ ..
      refine ⟨turns,rfl,h.1,?_,tunRead_agree tu t.packet⟩
      have htraffic : traffic ++ [] = (relay turns).2 := h.2
      rw [← htraffic, List.append_nil]
  | demuxing t' =>
    obtain ⟨turns',rfl,hsame,rfl,hagree⟩ := h
    obtain ⟨hret,hbytes,htable⟩ := netDemux_relayed hsame hagree hc.1 hc.2
    simp only [serverRun]
    split
    case isTrue hn =>
      refine ⟨?_,?_⟩
      · rw [relay_snoc]
        exact htable
      · rw [relay_snoc, relayStep, if_pos (hret ▸ hn)]
        exact List.append_nil _
    case isFalse hn =>
      refine relays_log ?_ ..
      refine ⟨?_,?_⟩
      · rw [relay_snoc]
        exact htable
      · rw [relay_snoc, relayStep, if_neg (hret ▸ hn), ← hbytes]
        exact List.append_assoc ..
  | writing nwrite => exact ⟨h.1,(List.append_nil _).trans h.2⟩

private theorem relays_step {s : Session} (h : s.server.Relays) (e : Happening) (hc : s.Contained e) :
    (sessionStep s e).server.Relays := by
  cases e with
  | server t now written =>
    rw [sessionStep]
    split
    · exact h
    · exact relays_server h t now written hc
  | sigusr1 => exact h
  | exit => exact h
  | view =>
    rw [sessionStep]
    split <;> exact h
  | interrupt =>
    rw [sessionStep]
    split <;> exact h

/-- Refinement. When no allocation fails and every packet is self-contained for
the connections and the buffer it meets, the server does what the relay does
with the same packets, whatever becomes of the log and its viewer: between two
turns the traffic and the connections are the relay's, and within one the
traffic is a part of it. -/
theorem server_relays {verbose : Bool} {happenings : List Happening}
    (h : Along sessionStep Session.Contained (.start verbose) happenings) {v : Server}
    (hv : (run sessionStep (.start verbose) happenings).server = v) :
    v.traffic ++ v.outgoing <+: (relay v.turns).2 ∧
      (v.place = .head → v.traffic = (relay v.turns).2 ∧ ∀ id, hashFind v.table id = hashFind (relay v.turns).1 id) := by
  have hrelays : v.Relays := by
    rw [← hv]
    refine Along.history (P := fun _ s => s.server.Relays) ?_ (fun _ e hs hc => relays_step hs e hc) h
    exact ⟨⟨.empty,.empty,fun _ => rfl⟩,rfl⟩
  have hplace : v.place ≠ .faulted := by
    obtain ⟨queued,hc⟩ := Session.reachable_faithful (s := run sessionStep (.start verbose) happenings) ⟨happenings,rfl⟩
    rw [← hv]
    exact hc.place
  obtain ⟨tu,table,shutdown,logging,place,turns,traffic⟩ := v
  cases place with
  | faulted => exact absurd rfl hplace
  | head =>
    have htraffic : traffic ++ [] = (relay turns).2 := hrelays.2
    rw [List.append_nil] at htraffic
    exact ⟨by rw [← hrelays.2],fun _ => ⟨htraffic,hrelays.1.find⟩⟩
  | reading | writing | done => exact ⟨by rw [← hrelays.2],nofun⟩
  | demuxing t =>
    obtain ⟨turns',rfl,-,rfl,-⟩ := hrelays
    refine ⟨?_,nofun⟩
    rw [relay_snoc, relayStep]
    simp only [Server.outgoing, List.append_nil]
    exact (List.prefix_append_right_inj _).mpr (List.cons_prefix_cons.mpr ⟨rfl,List.nil_prefix⟩)

/-- The turn that brings the client's SYN. -/
def synTurn : Turn := ⟨clientSyn.pkt.buf.bytes 0 40,(Mem.length_bytes _ 0 40).trans_le (by decide),calmEnv⟩

/-- The loop test, tun_read and net_demux; the answer is about to be written. -/
def synTaken : List Happening := [.server synTurn 0 true,.server synTurn 0 true,.server synTurn 0 true]

theorem server_relays_syn : (run sessionStep (.start true) synTaken).server.outgoing.length = 1 ∧
    (run sessionStep (.start true) synTaken).server.traffic ++ (run sessionStep (.start true) synTaken).server.outgoing <+:
      (relay (run sessionStep (.start true) synTaken).server.turns).2 := by
  have hself : SelfContained .empty (tunRead (fun _ => 0) synTurn.packet) 40 :=
    Or.inr (Or.inr (Or.inl ⟨by decide +kernel,Or.inl (by decide +kernel)⟩))
  have halong : Along sessionStep Session.Contained (.start true) synTaken := by
    simp only [synTaken, Along]
    exact ⟨trivial,trivial,⟨hself,rfl⟩,trivial⟩
  exact ⟨by decide +kernel,(server_relays halong rfl).1⟩

end LazyTcp.Refactor
