import LazyTcp.Legacy.Session

/-! The stages a connection of the client goes through, with what is under way
between the two ends in each of them. -/
namespace LazyTcp.Legacy
open General General.Wire

/-- The request of the method the client waits in, until the server reads it. -/
inductive Asking (c : TCPClient) : ClientPlace → List ClientSegment → Prop where
  | menu : Asking c .menu []
  | ended : Asking c .ended []
  | handshake : Asking c .handshake [⟨SYN,.ofNat 32 c.mySeq,.ofNat 32 0,[]⟩]
  | sendData (data : List U8) : c.state = .established →
      Asking c (.sendData data) [⟨PSH ||| ACK,.ofNat 32 c.mySeq,.ofNat 32 c.theirSeq,data⟩]
  | close (leaving : Bool) : c.state = .established →
      Asking c (.close leaving) [⟨FIN ||| ACK,.ofNat 32 c.mySeq,.ofNat 32 c.theirSeq,[]⟩]

/-- An established connection stays silent to a SYN and to an empty segment. -/
def Unanswered : ClientPlace → Prop
  | .handshake => True
  | .sendData data => data = []
  | .menu | .close _ | .ended => False

/-- Where the client can be once it has closed the connection. -/
def Retired : ClientPlace → Prop
  | .menu | .handshake | .ended => True
  | .sendData _ | .close _ => False

/-- Both ends count the same bytes. -/
structure InStep (c : TCPClient) (con : TCB) : Prop where
  state : c.state = .established
  recv : con.recv.next = .ofNat 32 c.mySeq
  send : con.send.next = .ofNat 32 c.theirSeq

/-- The client, the answer under way and the block of the connection, with the
request that answer is for. -/
inductive Stage (c : TCPClient) : ClientPlace → List ClientSegment → Option Datagram → Option TCB →
    List (List U8 × List U8) → Prop where
  | fresh {place : ClientPlace} {wire : List ClientSegment} : c.state = .closed → Asking c place wire →
      Stage c place wire none none []
  | accepted (con : TCB) (d : Datagram) (iss : U32) : c.state = .closed → con.state = .synReceived →
      scapyResponse d = ⟨0x12,iss,con.recv.next,[]⟩ → con.send.next = iss + 1 →
      Stage c .handshake [] (some d) (some con) []
  | confirming {place : ClientPlace} {wire : List ClientSegment} (con : TCB) : con.state = .synReceived →
      InStep c con → Asking c place wire →
      Stage c place (⟨ACK,.ofNat 32 c.mySeq,.ofNat 32 c.theirSeq,[]⟩ :: wire) none (some con) []
  | opened {place : ClientPlace} {wire : List ClientSegment} (con : TCB) : con.state = .established →
      InStep c con → (Asking c place wire ∨ Unanswered place ∧ wire = []) → Stage c place wire none (some con) []
  | answered (con : TCB) (d : Datagram) (data load : List U8) : con.state = .established →
      c.state = .established → (scapyResponse d).load = load →
      con.recv.next = .ofNat 32 (c.mySeq + data.length) → con.send.next = .ofNat 32 (c.theirSeq + load.length) →
      Stage c (.sendData data) [] (some d) (some con) [(data,load)]
  | closing (con : TCB) (d : Datagram) (leaving : Bool) : con.state = .closeWait → c.state = .established →
      Stage c (.close leaving) [] (some d) (some con) []
  | finished {place : ClientPlace} {wire : List ClientSegment} (con : TCB) : con.state = .closeWait →
      c.state = .closed → Retired place → (∀ g ∈ wire, hasFlag g.flags RST = false) →
      Stage c place wire none (some con) []
  | crashed (con : Option TCB) : Stage c .ended [] none con []

/-- A request with its response, as the server made it and as send_data got it. -/
def response (p : HttpFile × List U8) : List U8 × List U8 := (p.2,httpHandleRequest p.1 p.2)

def answers (returned : List (List U8 × Option (List U8))) : List (List U8 × List U8) :=
  returned.filterMap fun p => p.2.map fun load => (p.1,load)

structure SessionInv (id : ConnectionID) (s : Session) (v : Server) : Prop where
  unique : v.Unique
  own : s.client.id = id
  stage : ∃ pending, Stage s.client s.place s.wire s.reply (tcpGetState v id) pending ∧
    s.handled.map response = answers s.returned ++ pending
  unanswered : ∀ data, (data,none) ∈ s.returned → data = []

section Steps
variable {c : TCPClient} {place : ClientPlace} {wire : List ClientSegment} {reply : Option Datagram}
  {con : Option TCB} {pending : List (List U8 × List U8)} {env : Env} {buf : Mem} {g : ClientSegment} {r : Result}

/-- The block and the answer after a request of n bytes. -/
private theorem answered_stage {b : TCB} {data : List U8} (len : Nat) (hst : b.state = .established)
    (hin : InStep c b) (hb : HoldsSegment c.id ⟨PSH ||| ACK,.ofNat 32 c.mySeq,.ofNat 32 c.theirSeq,data⟩ buf)
    (hfit : 40 + (httpHandleRequest env.file data).length ≤ Bounded.MTU_SIZE) :
    Stage c (.sendData data) []
      (some ⟨(tcpSendAck buf 20 (advanced data.length b) (httpHandleRequest env.file data)).2,len⟩)
      (some (tcpSendAck buf 20 (advanced data.length b) (httpHandleRequest env.file data)).1)
      [response (env.file,data)] := by
  have hmtu : Bounded.MTU_SIZE = 1500 := rfl
  obtain ⟨-,hload⟩ := tcpSendAck_response (advanced data.length b) len (httpHandleRequest env.file data) hb.ihl hb.hlen
    (by omega)
  have hrecv : (advanced data.length b).recv.next = .ofNat 32 (c.mySeq + data.length) := by
    rw [BitVec.ofNat_add, ← hin.recv]
    rfl
  have hsend : (tcpSendAck buf 20 (advanced data.length b) (httpHandleRequest env.file data)).1.send.next =
      .ofNat 32 (c.theirSeq + (httpHandleRequest env.file data).length) := by
    rw [BitVec.ofNat_add, ← hin.send, tcpSendAck_send, advanced_send]
  exact .answered _ _ data _ hst hin.state hload hrecv hsend

/-- An established server reads a request: it answers a FIN and every byte it is given. -/
private theorem Asking.served {b : TCB} (ha : Asking c place (g :: wire)) (hst : b.state = .established)
    (hin : InStep c b) (hb : HoldsSegment c.id g buf)
    (hfit : 40 + (httpHandleRequest env.file g.data).length ≤ Bounded.MTU_SIZE)
    (ht : Transition env buf 20 (some b) r) (len : Nat) :
    Stage c place wire (if r.code = .ok then some ⟨r.buf,len⟩ else none) r.con
      (r.request.map fun data => response (env.file,data)).toList := by
  cases ha with
  | handshake =>
    rw [established_takes hb hst (by decide) (by decide) ht, if_pos rfl]
    exact .opened b hst hin (Or.inr ⟨trivial,rfl⟩)
  | sendData data =>
    have hr := established_takes hb hst (by decide) (by decide) ht
    by_cases he : data = []
    · rw [hr, if_pos he]
      exact .opened b hst hin (Or.inr ⟨he,rfl⟩)
    · rw [hr, if_neg he]
      exact answered_stage len hst hin hb hfit
  | close leaving hc =>
    obtain ⟨con',b',hst',hr⟩ := fin_closes hb hst ht
    rw [hr]
    exact .closing con' ⟨b',len⟩ leaving hst' hc

/-- Step lemma for the server: the stage its reading of a segment leads to. -/
private theorem Stage.served (h : Stage c place (g :: wire) reply con pending) (hb : HoldsSegment c.id g buf)
    (hfit : 40 + (httpHandleRequest env.file g.data).length ≤ Bounded.MTU_SIZE)
    (ht : Transition env buf 20 con r) (len : Nat) : reply = none ∧ pending = [] ∧
      Stage c place wire (if r.code = .ok then some ⟨r.buf,len⟩ else none) r.con
        (r.request.map fun data => response (env.file,data)).toList := by
  cases h with
  | fresh hc ha =>
    refine ⟨rfl,rfl,?_⟩
    cases ha with
    | sendData _ h | close _ h => exact absurd (hc.symm.trans h) (by decide)
    | handshake =>
      rw [syn_opens hb ht]
      exact .accepted _ _ env.ticks hc rfl (tcpNullSynAck_response _ len env.ticks hb.ihl hb.hlen) rfl
  | confirming b hst hin ha =>
    refine ⟨rfl,rfl,?_⟩
    rw [plain_ack_establishes hb hst hin.send ht]
    have hnext := (acknowledged_numbers buf 20 b).1
    exact .opened _ rfl ⟨hin.state,hin.recv,hnext.trans hin.send⟩ (Or.inl ha)
  | opened b hst hin ha =>
    rcases ha with ha | ⟨-,he⟩
    · exact ⟨rfl,rfl,ha.served hst hin hb hfit ht len⟩
    · exact nomatch he
  | finished b hst hc hp hrst =>
    refine ⟨rfl,rfl,?_⟩
    rw [closed_ignores hb hst (hrst g (List.mem_cons_self ..)) ht]
    exact .finished b hst hc hp fun g' hg => hrst g' (List.mem_cons_of_mem g hg)

theorem scapyTcp_cases (flags : U8) (seq ack : Nat) (data : List U8) :
    scapyTcp flags seq ack data = none ∨ scapyTcp flags seq ack data = some ⟨flags,.ofNat 32 seq,.ofNat 32 ack,data⟩ := by
  unfold scapyTcp
  split
  · exact Or.inr rfl
  · exact Or.inl rfl

/-- Up to its sr1 a method leaves the client as it is. -/
theorem menu_asks (c : TCPClient) (choice : Choice) :
    (c.menu choice).client = c ∧ Asking c (c.menu choice).place (c.menu choice).sent := by
  have htransmit (place : ClientPlace) (flags : U8) (seq ack : Nat) (data : List U8)
      (ha : Asking c place [⟨flags,.ofNat 32 seq,.ofNat 32 ack,data⟩]) :
      (c.transmit place (scapyTcp flags seq ack data)).client = c ∧
        Asking c (c.transmit place (scapyTcp flags seq ack data)).place
          (c.transmit place (scapyTcp flags seq ack data)).sent := by
    rcases scapyTcp_cases flags seq ack data with h | h <;> rw [h]
    · exact ⟨rfl,.ended⟩
    · exact ⟨rfl,ha⟩
  have hclose (leaving : Bool) : (c.close leaving).client = c ∧
      Asking c (c.close leaving).place (c.close leaving).sent := by
    unfold TCPClient.close
    split
    · cases leaving with
      | true => exact ⟨rfl,.ended⟩
      | false => exact ⟨rfl,.menu⟩
    case isFalse h => exact htransmit _ _ _ _ _ (.close leaving (not_not.mp h))
  cases choice with
  | handshake => exact htransmit _ _ _ _ _ .handshake
  | sendData data =>
    simp only [TCPClient.menu, TCPClient.sendData]
    split
    · exact ⟨rfl,.menu⟩
    case isFalse h => exact htransmit _ _ _ _ _ (.sendData data (not_not.mp h))
  | close => exact hclose false
  | exit => exact hclose true
  | invalid => exact ⟨rfl,.menu⟩

/-- A closed client asks for a connection at most. -/
private theorem Asking.retired (ha : Asking c place wire) (hc : c.state = .closed) :
    Retired place ∧ ∀ g ∈ wire, hasFlag g.flags RST = false := by
  cases ha with
  | menu | ended => exact ⟨trivial,nofun⟩
  | handshake =>
    refine ⟨trivial,fun g hg => ?_⟩
    rw [List.mem_singleton.mp hg]
    exact show hasFlag SYN RST = false by decide
  | sendData _ h | close _ h => exact absurd (hc.symm.trans h) (by decide)

/-- At the menu nothing is under way but the acknowledgement of a SYN-ACK or a FIN. -/
private theorem Asking.nil (ha : Asking c .menu wire) : wire = [] := by
  cases ha
  rfl

/-- Step lemma for a choice at the menu. -/
private theorem Stage.chosen (h : Stage c .menu wire reply con pending) (choice : Choice) : pending = [] ∧
    Stage c (c.menu choice).place (wire ++ (c.menu choice).sent) none con [] := by
  obtain ⟨-,hask⟩ := menu_asks c choice
  cases h with
  | fresh hc ha =>
    rw [ha.nil]
    exact ⟨rfl,.fresh hc hask⟩
  | confirming b hst hin ha =>
    rw [ha.nil]
    exact ⟨rfl,.confirming b hst hin hask⟩
  | opened b hst hin ha =>
    rcases ha with ha | ⟨ha,-⟩
    · rw [ha.nil]
      exact ⟨rfl,.opened b hst hin (Or.inl hask)⟩
    · exact ha.elim
  | finished b hst hc hp hrst =>
    obtain ⟨hplace,hsent⟩ := hask.retired hc
    refine ⟨rfl,.finished b hst hc hplace fun g hg => ?_⟩
    exact (List.mem_append.mp hg).elim (hrst g) (hsent g)

/-- Step lemma for the return of sr1, with what send_data hands to its caller. -/
private theorem Stage.resumed (h : Stage c place wire reply con pending) (hwire : reply = none → wire = []) :
    answers (outcome place (reply.map scapyResponse)) = pending ∧
      (∀ data, (data,none) ∈ outcome place (reply.map scapyResponse) → data = []) ∧
      Stage (c.resume place (reply.map scapyResponse)).client (c.resume place (reply.map scapyResponse)).place
        (wire ++ (c.resume place (reply.map scapyResponse)).sent) none con [] := by
  cases h with
  | fresh hc ha =>
    cases hwire rfl
    cases ha with
    | menu => exact ⟨rfl,nofun,.fresh hc .menu⟩
    | ended => exact ⟨rfl,nofun,.fresh hc .ended⟩
  | accepted b d iss hc hst hd hsend =>
    refine ⟨rfl,nofun,?_⟩
    simp only [Option.map_some, hd, TCPClient.resume, TCPClient.handshakeResponse, ne_eq, not_true_eq_false, if_false]
    rcases scapyTcp_cases ACK b.recv.next.toNat (iss.toNat + 1) [] with h | h <;> rw [h]
    · exact .crashed _
    · refine .confirming b hst ⟨rfl,?_,?_⟩ .menu
      · simp
      · rw [hsend, BitVec.ofNat_add]
        simp
  | confirming b hst hin ha => exact nomatch hwire rfl
  | opened b hst hin ha =>
    cases hwire rfl
    rcases ha with ha | ⟨ha,-⟩
    · cases ha with
      | menu => exact ⟨rfl,nofun,.opened b hst hin (Or.inl .menu)⟩
      | ended => exact ⟨rfl,nofun,.opened b hst hin (Or.inl .ended)⟩
    · cases place with
      | handshake => exact ⟨rfl,nofun,.opened b hst hin (Or.inl .menu)⟩
      | sendData data =>
        refine ⟨rfl,fun data' hd => ?_,.opened b hst hin (Or.inl .menu)⟩
        cases List.mem_singleton.mp hd
        exact ha
      | menu | close | ended => exact ha.elim
  | answered b d data load hst hc hload hrecv hsend =>
    refine ⟨?_,?_,?_⟩
    · simp [answers, outcome, hload]
    · simp [outcome]
    · rw [← hload] at hsend
      exact .opened b hst ⟨hc,hrecv,hsend⟩ (Or.inl .menu)
  | closing b d leaving hst hc =>
    refine ⟨rfl,nofun,?_⟩
    simp only [Option.map_some, TCPClient.resume, TCPClient.closeResponse]
    rcases scapyTcp_cases ACK (c.mySeq + 1) ((scapyResponse d).seq.toNat + 1) [] with h | h <;> rw [h]
    · exact .crashed _
    · refine .finished b hst rfl ?_ fun g hg => ?_
      · cases leaving <;> exact trivial
      · rw [List.mem_singleton.mp hg]
        exact show hasFlag ACK RST = false by decide
  | finished b hst hc hp hrst =>
    cases hwire rfl
    cases place with
    | menu | handshake | ended => exact ⟨rfl,nofun,.finished b hst hc trivial nofun⟩
    | sendData | close => exact hp.elim
  | crashed => exact ⟨rfl,nofun,.crashed _⟩

end Steps

theorem resume_id (c : TCPClient) (place : ClientPlace) (r : Option Response) :
    (c.resume place r).client.id = c.id := by
  cases place with
  | menu | ended => rfl
  | handshake =>
    cases r with
    | none => rfl
    | some r =>
      simp only [TCPClient.resume, TCPClient.handshakeResponse]
      split
      · rfl
      · split <;> rfl
  | sendData => cases r <;> rfl
  | close =>
    cases r with
    | none => rfl
    | some r =>
      simp only [TCPClient.resume, TCPClient.closeResponse]
      split <;> rfl

section Runs
variable {id : ConnectionID} {s : Session} {v : Server}

/-- What a segment does to a session whose server survives it. -/
private theorem arrive_cases {env : Env} {buf : Mem} (h : ∀ v, s.server = some v → SessionInv id s v)
    (hf : Feasible s (.arrive env buf)) (hv : (sessionStep s (.arrive env buf)).server = some v) :
    sessionStep s (.arrive env buf) = s ∨ ∃ v₀ g wire r len, s.wire = g :: wire ∧ s.server = some v₀ ∧
      Transition env buf 20 (tcpGetState v₀ id) r ∧ v.Unique ∧ tcpGetState v id = r.con ∧
      sessionStep s (.arrive env buf) = { s with
        wire := wire
        server := some v
        reply := s.reply.or (if r.code = .ok then some ⟨r.buf,len⟩ else none)
        handled := s.handled ++ (r.request.map fun data => (env.file,data)).toList } := by
  cases hw : s.wire with
  | nil => simp [sessionStep, hw]
  | cons g wire =>
    cases hs : s.server with
    | none => simp [sessionStep, hw, hs]
    | some v₀ =>
      have hinv := h v₀ hs
      have hb := (hf g (by simp [hw])).1
      rw [hinv.own] at hb
      cases hp : parsePacket env v₀ buf with
      | none =>
        simp only [sessionStep, hw, hs, hp] at hv
        cases hv
      | some p =>
        obtain ⟨r,len,ht,hu,hfind,hwritten,hreq⟩ := parsePacket_segment hinv.unique hb hp
        have hstep : sessionStep s (.arrive env buf) = { s with
            wire := wire
            server := some p.server
            reply := s.reply.or p.written
            handled := s.handled ++ ((handedOver env v₀ buf).map fun data => (env.file,data)).toList } := by
          simp only [sessionStep, hw, hs, hp]
        rw [hstep] at hv
        cases hv
        rw [hwritten, hreq] at hstep
        exact Or.inr ⟨v₀,g,wire,r,len,rfl,rfl,ht,hu,hfind,hstep⟩

/-- Step lemma of the session, one case per happening. -/
private theorem sessionStep_inv {i : Happening} (h : ∀ v, s.server = some v → SessionInv id s v) (hf : Feasible s i)
    (hv : (sessionStep s i).server = some v) : SessionInv id (sessionStep s i) v := by
  cases i with
  | choice choice =>
    by_cases hp : s.place = .menu
    · have hstep : sessionStep s (.choice choice) = s.go (s.client.menu choice) := if_pos hp
      rw [hstep] at hv ⊢
      have hinv := h v hv
      obtain ⟨pending,hst,hhand⟩ := hinv.stage
      rw [hp] at hst
      obtain ⟨rfl,hst'⟩ := hst.chosen choice
      obtain ⟨hc,-⟩ := menu_asks s.client choice
      refine ⟨hinv.unique,?_,⟨[],?_,hhand⟩,hinv.unanswered⟩
      · exact (congrArg TCPClient.id hc).trans hinv.own
      · show Stage (s.client.menu choice).client _ _ _ _ _
        rw [hc]
        exact hst'
    · have hstep : sessionStep s (.choice choice) = s := if_neg hp
      rw [hstep] at hv ⊢
      exact h v hv
  | respond =>
    have hinv := h v hv
    obtain ⟨pending,hst,hhand⟩ := hinv.stage
    have hwire : s.reply = none → s.wire = [] := fun hr => (hf hr).resolve_right fun hd => nomatch hd.symm.trans hv
    obtain ⟨hans,hnone,hst'⟩ := hst.resumed hwire
    refine ⟨hinv.unique,?_,⟨[],hst',?_⟩,fun data hd => ?_⟩
    · exact (resume_id ..).trans hinv.own
    · rw [List.append_nil]
      refine hhand.trans ?_
      simp only [sessionStep, answers, List.filterMap_append]
      rw [← hans]
      rfl
    · exact (List.mem_append.mp hd).elim (hinv.unanswered data) (hnone data)
  | arrive env buf =>
    rcases arrive_cases h hf hv with he | ⟨v₀,g,wire,r,len,hw,hs,ht,hu,hfind,he⟩
    · rw [he] at hv ⊢
      exact h v hv
    · obtain ⟨hb,hfit⟩ := hf g (by simp [hw])
      have hinv := h v₀ hs
      obtain ⟨pending,hst,hhand⟩ := hinv.stage
      rw [hw] at hst
      obtain ⟨hreply,rfl,hst'⟩ := hst.served hb hfit ht len
      rw [he]
      refine ⟨hu,hinv.own,⟨(r.request.map fun data => response (env.file,data)).toList,?_,?_⟩,hinv.unanswered⟩
      · rw [hfind, hreply, Option.none_or]
        exact hst'
      · rw [List.map_append, hhand, List.append_nil]
        cases r.request <;> rfl
  | other env buf =>
    cases hs : s.server with
    | none =>
      simp only [sessionStep, hs] at hv
      cases hv
    | some v₀ =>
      have hinv := h v₀ hs
      simp only [sessionStep, hs, Option.bind_some] at hv
      obtain ⟨p,hp,rfl⟩ := Option.map_eq_some_iff.mp hv
      have hne : packetDeserialize buf = .ipv4Tcp → segId buf (ihlBytes buf) ≠ id := by
        rw [← hinv.own]
        exact hf
      obtain ⟨hu,hsame⟩ := parsePacket_other hinv.unique hne hp
      refine ⟨hu,hinv.own,?_,hinv.unanswered⟩
      rw [hsame]
      exact hinv.stage

private theorem SessionInv.start (hv : (Session.start id).server = some v) : SessionInv id (.start id) v := by
  cases hv
  exact ⟨List.nodup_nil,rfl,⟨[],.fresh rfl .menu,rfl⟩,nofun⟩

theorem run_inv {hs : List Happening} (h : Along sessionStep Feasible (.start id) hs)
    (hv : (run sessionStep (.start id) hs).server = some v) : SessionInv id (run sessionStep (.start id) hs) v :=
  h.history (P := fun _ s => ∀ v, s.server = some v → SessionInv id s v) (fun _ => .start)
    (fun _ _ hi hf _ => sessionStep_inv hi hf) v hv

/-- A server that has died stays dead. -/
private theorem sessionStep_alive {i : Happening} (hv : (sessionStep s i).server = some v) : ∃ v₀, s.server = some v₀ := by
  cases hs : s.server with
  | some v₀ => exact ⟨v₀,rfl⟩
  | none =>
    cases i with
    | choice choice =>
      simp only [sessionStep] at hv
      split at hv <;> exact nomatch hs.symm.trans hv
    | respond => exact nomatch hs.symm.trans hv
    | arrive env buf =>
      have hstep : sessionStep s (.arrive env buf) = s := by cases hw : s.wire <;> simp [sessionStep, hw, hs]
      rw [hstep] at hv
      exact nomatch hs.symm.trans hv
    | other env buf =>
      simp only [sessionStep, hs] at hv
      cases hv

/-- After the FIN no step changes the block or has a request handled. -/
private theorem sessionStep_closed {i : Happening} {con : TCB} (hst : con.state = .closeWait)
    (h : ∀ v, s.server = some v → SessionInv id s v ∧ tcpGetState v id = some con) (hf : Feasible s i)
    (hv : (sessionStep s i).server = some v) :
    tcpGetState v id = some con ∧ (sessionStep s i).handled = s.handled := by
  have hinv := fun v hv => (h v hv).1
  cases i with
  | choice choice =>
    by_cases hp : s.place = .menu
    · have hstep : sessionStep s (.choice choice) = s.go (s.client.menu choice) := if_pos hp
      rw [hstep] at hv ⊢
      exact ⟨(h v hv).2,rfl⟩
    · have hstep : sessionStep s (.choice choice) = s := if_neg hp
      rw [hstep] at hv ⊢
      exact ⟨(h v hv).2,rfl⟩
  | respond => exact ⟨(h v hv).2,rfl⟩
  | arrive env buf =>
    rcases arrive_cases hinv hf hv with he | ⟨v₀,g,wire,r,len,hw,hs,ht,hu,hfind,he⟩
    · rw [he] at hv ⊢
      exact ⟨(h v hv).2,rfl⟩
    · obtain ⟨hb,-⟩ := hf g (by simp [hw])
      obtain ⟨pending,hstage,-⟩ := (hinv v₀ hs).stage
      rw [(h v₀ hs).2] at ht hstage
      have hrst : hasFlag g.flags RST = false := by
        rw [hw] at hstage
        generalize s.reply = reply at hstage
        generalize s.place = place at hstage
        cases hstage with
        | confirming _ h => exact nomatch hst.symm.trans h
        | opened _ h => exact nomatch hst.symm.trans h
        | finished _ _ _ _ h => exact h g (List.mem_cons_self ..)
      rw [closed_ignores hb hst hrst ht] at hfind he
      rw [he]
      exact ⟨hfind,List.append_nil _⟩
  | other env buf =>
    cases hs : s.server with
    | none =>
      simp only [sessionStep, hs] at hv
      cases hv
    | some v₀ =>
      simp only [sessionStep, hs, Option.bind_some] at hv
      obtain ⟨p,hp,rfl⟩ := Option.map_eq_some_iff.mp hv
      have hne : packetDeserialize buf = .ipv4Tcp → segId buf (ihlBytes buf) ≠ id := by
        rw [← (hinv v₀ hs).own]
        exact hf
      exact ⟨(parsePacket_other (hinv v₀ hs).unique hne hp).2.trans (h v₀ hs).2,rfl⟩

end Runs

private def env : Env := ⟨77,true,.missing⟩

/-- The handshake and a request, chosen before its acknowledgement arrives. -/
private def requesting : List Happening :=
  [.choice .handshake,.arrive env (craft clientId SYN 1000 0 []),.respond,.choice (.sendData (ascii "GET /")),
    .arrive env (craft clientId ACK 1001 78 []),
    .arrive env (craft clientId (PSH ||| ACK) 1001 78 (ascii "GET /")),.respond]

/-- The FIN, and then an attempt at a second handshake. -/
private def leaving : List Happening :=
  requesting ++ [.choice .close,.arrive env (craft clientId (FIN ||| ACK) 1006 104 [])]
private def again : List Happening :=
  [.respond,.choice .handshake,.arrive env (craft clientId ACK 1007 105 []),
    .arrive env (craft clientId SYN 1006 0 []),.respond]

private theorem server_of_isSome {s : Session} (h : s.server.isSome = true) : ∃ v, s.server = some v :=
  Option.isSome_iff_exists.mp h

/-- Between two methods, with nothing under way, the two ends of a connection
agree on its state and on the next byte in each direction. -/
structure Agreed (id : ConnectionID) (c : TCPClient) (v : Server) : Prop where
  opened : c.state = .established → ∃ con, tcpGetState v id = some con ∧ con.state = .established ∧
    con.recv.next = .ofNat 32 c.mySeq ∧ con.send.next = .ofNat 32 c.theirSeq
  closed : c.state = .closed → ∀ con, tcpGetState v id = some con → con.state = .closeWait

/-- The calls of http_handle_request for the connection and the returns of
send_data: the same requests in the same order, each with the response that was
made of it. Only an empty request is not answered. -/
structure Served (s : Session) : Prop where
  prefixed : answers s.returned <+: s.handled.map response
  complete : (∀ data, s.place ≠ .sendData data) → answers s.returned = s.handled.map response
  unanswered : ∀ data, (data,none) ∈ s.returned → data = []

private theorem Stage.settled {c : TCPClient} {place : ClientPlace} {wire : List ClientSegment} {reply : Option Datagram}
    {b : Option TCB} {pending : List (List U8 × List U8)} (h : Stage c place wire reply b pending)
    (hplace : ∀ data, place ≠ .sendData data) : pending = [] := by
  cases h with
  | answered _ _ data => exact absurd rfl (hplace data)
  | _ => rfl

theorem SessionInv.served {id : ConnectionID} {s : Session} {v : Server} (h : SessionInv id s v) : Served s := by
  obtain ⟨pending,hst,hhand⟩ := h.stage
  refine ⟨⟨pending,hhand.symm⟩,fun hplace => ?_,h.unanswered⟩
  rw [hhand, hst.settled hplace, List.append_nil]

end LazyTcp.Legacy
