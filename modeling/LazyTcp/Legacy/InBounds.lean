import LazyTcp.Legacy.Bounds

/-! When the first stack stays inside its packet buffer. The length of a packet
as it was read is not looked at; what bounds the accesses are the lengths the
packet claims and the length of the response. -/
namespace LazyTcp.Legacy.Bounded
open General General.Guarded

section Answers
variable {env : Env} {s : Server} {m : Mem} {o : Nat} {out : Outcome}

/-- A segment with payload for an established connection is answered with its response. -/
private theorem answered_ok (env : Env) (ha : Answered s m o) : ∃ out tcb, Legacy.tcpDispatch env s m o = some out ∧
    out.code = .ok ∧ out.buf = (Legacy.tcpSendAck m o tcb (response env m o)).2 := by
  obtain ⟨⟨id,state,send,recv⟩,hf,rfl,hr,hfin,hd⟩ := ha
  rw [rstFlag] at hr
  rw [finFlag] at hfin
  simp only [Legacy.tcpDispatch, hf, hr, hfin, Bool.false_eq_true, if_false, Legacy.tcpHandleData, hd]
  exact ⟨_,_,rfl,rfl,rfl⟩

private theorem answered_out (hlo : 20 ≤ o) (ha : Answered s m o) (hd : Legacy.tcpDispatch env s m o = some out) :
    out.code = .ok ∧ (ntohs (Wire.ipLen out.buf)).toNat =
      (Wire.ihlBytes m + Wire.tcpHlen m o + (response env m o).length) % 65536 ∧ out.buf 0 = m 0 := by
  obtain ⟨out',tcb,hd',hc,hbuf⟩ := answered_ok env ha
  cases hd.symm.trans hd'
  rw [hbuf]
  exact ⟨hc,tcpSendAck_ipLen m tcb _ hlo,tcpSendAck_head m tcb _ hlo (Or.inl rfl)⟩

/-- Every other answer is two headers. -/
private theorem unanswered_out (hlo : 20 ≤ o) (ha : ¬ Answered s m o) {b : Mem} (h : Answer env s m o b) :
    (ntohs (Wire.ipLen b)).toNat = Wire.ihlBytes m + Wire.tcpHlen m o ∧ b 0 = m 0 := by
  have hihl := Wire.ihlBytes_le m
  have hhl := Wire.tcpHlen_le m o
  cases h with
  | synAck tcb => exact ⟨tcpNullSynAck_len env.ticks m tcb hlo,tcpNullSynAck_head env.ticks m tcb hlo (Or.inl rfl)⟩
  | reset => exact ⟨tcpNullRst_len m hlo,tcpNullRst_head m hlo (Or.inl rfl)⟩
  | finAck tcb =>
    have hlen := tcpSendAck_ipLen m tcb [] hlo
    rw [List.length_nil, Nat.add_zero, Nat.mod_eq_of_lt (by omega)] at hlen
    exact ⟨hlen,tcpSendAck_head m tcb [] hlo (Or.inl rfl)⟩
  | response con tcb hf hst hr hfin hlen => exact absurd ⟨con,hf,hst,hr,hfin,hlen⟩ ha

end Answers

/-- What keeps a packet inside the buffer. The total length bounds how far an
ICMP packet is summed and written, and how far the debug output reads a segment;
the two claimed header lengths and the response bound how far a body is copied. -/
def Fits (print : Bool) (env : Env) (s : Server) (m : Mem) : Prop :=
  match Legacy.packetDeserialize m with
  | .ipv4Icmp => (ntohs (Wire.ipLen m)).toNat ≤ MTU_SIZE
  | .ipv4Tcp => (print = true → (ntohs (Wire.ipLen m)).toNat ≤ MTU_SIZE + 1) ∧
      (Answered s m (Wire.ihlBytes m) → Wire.ihlBytes m + Wire.tcpHlen m (Wire.ihlBytes m) +
        (response env m (Wire.ihlBytes m)).length ≤ MTU_SIZE)
  | .protoUndf | .ipv6 | .verUndf => True

section Parse
variable {print : Bool} {env : Env} {s : Server} {m : Mem} {o : Nat}

private theorem reply_run (s : Server) (m : Mem) : (reply s).run MTU_SIZE m =
    if (ntohs (Wire.ipLen m)).toNat ≤ MTU_SIZE
    then some (some ⟨0,s,some ⟨m,(ntohs (Wire.ipLen m)).toNat⟩⟩,m) else none := by
  have hwrite (n : Nat) : (deviceWrite n).run MTU_SIZE m = if n ≤ MTU_SIZE then some (⟨m,n⟩,m) else none := rfl
  rw [reply, load16_bind _ (by decide), run_bind, hwrite, Wire.ipLen]
  split <;> rfl

private theorem debugPrint_of (hihl : Wire.ihlBytes m = o)
    (h : print = true → (ntohs (Wire.ipLen m)).toNat ≤ MTU_SIZE + 1) :
    (debugPrint print o).run MTU_SIZE m = some ((),m) := by
  have ho := Wire.ihlBytes_le m
  cases print with
  | false => rfl
  | true =>
    have hw := h rfl
    refine (packetDebug_run m (by decide) (by omega)).trans (if_pos (within_iff.mpr ?_))
    omega

private theorem debugPrint_none (hihl : Wire.ihlBytes m = o) (h : MTU_SIZE + 1 < (ntohs (Wire.ipLen m)).toNat) :
    (debugPrint true o).run MTU_SIZE m = none := by
  have ho := Wire.ihlBytes_le m
  have hhl := Wire.tcpHlen_le m o
  have hsize : MTU_SIZE = 1500 := rfl
  refine (packetDebug_run m (by decide) (by omega)).trans (if_neg ?_)
  rw [within_iff]
  omega

private theorem parse_icmp (hk : Legacy.packetDeserialize m = .ipv4Icmp) :
    (parsePacket print env s).run MTU_SIZE m = if (ntohs (Wire.ipLen m)).toNat ≤ MTU_SIZE
      then some (Legacy.parsePacket env s m,Legacy.icmpDispatch m (Wire.ihlBytes m)) else none := by
  have hlo := (packetDeserialize_icmp hk).1
  have ho := Wire.ihlBytes_le m
  have hsize : MTU_SIZE = 1500 := rfl
  rw [parsePacket, run_bind_of (packetDeserialize_run m (by decide)), run_bind_of ihlBytes_of, hk,
    Legacy.parsePacket, hk]
  refine (run_bind ..).trans ?_
  rw [icmpDispatch_run m (by decide) ho hlo]
  split
  case isTrue h =>
    rw [within_iff] at h
    rw [if_neg (by omega)]
    rfl
  case isFalse =>
    rw [Option.bind_some, reply_run]
    simp only [icmpDispatch_ipLen m hlo]

/-- An answer in the buffer that claims at most one byte too much. -/
private theorem tcpFinish_ok (s : Server) (hihl : Wire.ihlBytes m = o)
    (hlen : (ntohs (Wire.ipLen m)).toNat ≤ MTU_SIZE + 1) :
    (tcpFinish print o (some (.ok,s))).run MTU_SIZE m = if (ntohs (Wire.ipLen m)).toNat ≤ MTU_SIZE
      then some (some ⟨0,s,some ⟨m,(ntohs (Wire.ipLen m)).toNat⟩⟩,m) else none := by
  rw [tcpFinish, run_bind_of (debugPrint_of hihl fun _ => hlen), reply_run]

/-- The steps of parse_packet before the answer of a dispatch is written. -/
private theorem parse_tcp (hk : Legacy.packetDeserialize m = .ipv4Tcp)
    (hprint : print = true → (ntohs (Wire.ipLen m)).toNat ≤ MTU_SIZE + 1) :
    (parsePacket print env s).run MTU_SIZE m =
      (tcpDispatch env s (Wire.ihlBytes m) >>= tcpFinish print (Wire.ihlBytes m)).run MTU_SIZE m := by
  rw [parsePacket, run_bind_of (packetDeserialize_run m (by decide)), run_bind_of ihlBytes_of, hk]
  exact run_bind_of (debugPrint_of rfl hprint) _

private theorem parse_tcp_of (hk : Legacy.packetDeserialize m = .ipv4Tcp)
    (hprint : print = true → (ntohs (Wire.ipLen m)).toNat ≤ MTU_SIZE + 1)
    (hfit : Answered s m (Wire.ihlBytes m) → Wire.ihlBytes m + Wire.tcpHlen m (Wire.ihlBytes m) +
      (response env m (Wire.ihlBytes m)).length ≤ MTU_SIZE) :
    ∃ m', (parsePacket print env s).run MTU_SIZE m = some (Legacy.parsePacket env s m,m') := by
  have hlo := (packetDeserialize_tcp hk).1
  have ho := Wire.ihlBytes_le m
  have hhl := Wire.tcpHlen_le m (Wire.ihlBytes m)
  have hsize : MTU_SIZE = 1500 := rfl
  have hagrees : Agrees MTU_SIZE m (tcpDispatch env s (Wire.ihlBytes m))
      (Legacy.tcpDispatch env s m (Wire.ihlBytes m)) :=
    tcpDispatch_agrees m (by decide) ho hlo fun ha => within_iff.mpr (by have := hfit ha; omega)
  rw [parse_tcp hk hprint, Legacy.parsePacket, hk]
  cases hd : Legacy.tcpDispatch env s m (Wire.ihlBytes m) with
  | none =>
    rw [hd] at hagrees
    rw [run_bind_of hagrees]
    exact ⟨m,rfl⟩
  | some out =>
    obtain ⟨code,buf,server,request⟩ := out
    rw [hd] at hagrees
    rw [run_bind_of hagrees]
    refine ⟨buf,?_⟩
    cases code with
    | fatal | silent => rfl
    | ok =>
      have hlen : (ntohs (Wire.ipLen buf)).toNat ≤ MTU_SIZE ∧ buf 0 = m 0 := by
        by_cases ha : Answered s m (Wire.ihlBytes m)
        · have := hfit ha
          obtain ⟨-,hlen,h0⟩ := answered_out hlo ha hd
          exact ⟨hlen.trans_le (by omega),h0⟩
        · obtain ⟨hlen,h0⟩ := unanswered_out hlo ha (tcpDispatch_answer hd rfl)
          exact ⟨hlen.trans_le (by omega),h0⟩
      exact (tcpFinish_ok server (Wire.ihlBytes_congr hlen.2) (by omega)).trans (if_pos hlen.1)

private theorem parse_tcp_none (hk : Legacy.packetDeserialize m = .ipv4Tcp)
    (h : (print = true → (ntohs (Wire.ipLen m)).toNat ≤ MTU_SIZE + 1) → Answered s m (Wire.ihlBytes m) ∧
      MTU_SIZE < Wire.ihlBytes m + Wire.tcpHlen m (Wire.ihlBytes m) + (response env m (Wire.ihlBytes m)).length) :
    (parsePacket print env s).run MTU_SIZE m = none := by
  have hlo := (packetDeserialize_tcp hk).1
  have ho := Wire.ihlBytes_le m
  have hhl := Wire.tcpHlen_le m (Wire.ihlBytes m)
  have hsize : MTU_SIZE = 1500 := rfl
  by_cases hprint : print = true → (ntohs (Wire.ipLen m)).toNat ≤ MTU_SIZE + 1
  · obtain ⟨ha,hlong⟩ := h hprint
    rw [parse_tcp hk hprint]
    by_cases hw : Within MTU_SIZE (Wire.ihlBytes m + Wire.tcpHlen m (Wire.ihlBytes m))
        (response env m (Wire.ihlBytes m)).length
    · obtain ⟨⟨code,buf,server,request⟩,tcb,hd,-⟩ := answered_ok env ha
      obtain ⟨hc,hlen,h0⟩ := answered_out hlo ha hd
      cases hc
      have hagrees : Agrees MTU_SIZE m (tcpDispatch env s (Wire.ihlBytes m)) _ :=
        tcpDispatch_agrees m (by decide) ho hlo fun _ => hw
      rw [hd] at hagrees
      rw [within_iff] at hw
      rw [run_bind_of hagrees]
      simp only at hlen
      exact (tcpFinish_ok (m := buf) server (Wire.ihlBytes_congr h0) (by omega)).trans (if_neg (by omega))
    · exact run_bind_none (tcpDispatch_none m (by decide) ho hlo ha hw) _
  · have hp : print = true := by
      by_contra hp
      exact hprint fun h => absurd h hp
    subst hp
    rw [parsePacket, run_bind_of (packetDeserialize_run m (by decide)), run_bind_of ihlBytes_of, hk]
    exact run_bind_none (debugPrint_none rfl (by omega)) _

private theorem parse_of (h : Fits print env s m) :
    ∃ m', (parsePacket print env s).run MTU_SIZE m = some (Legacy.parsePacket env s m,m') := by
  unfold Fits at h
  split at h
  case h_1 hk => exact ⟨_,(parse_icmp hk).trans (if_pos h)⟩
  case h_2 hk => exact parse_tcp_of hk h.1 h.2
  all_goals
    rename_i hk
    rw [parsePacket, run_bind_of (packetDeserialize_run m (by decide)), run_bind_of ihlBytes_of, Legacy.parsePacket, hk]
    exact ⟨m,rfl⟩

private theorem parse_none (h : ¬ Fits print env s m) : (parsePacket print env s).run MTU_SIZE m = none := by
  unfold Fits at h
  split at h
  case h_1 hk => exact (parse_icmp hk).trans (if_neg h)
  case h_2 hk =>
    refine parse_tcp_none hk fun hprint => ?_
    by_contra hfit
    exact h ⟨hprint,fun ha => Nat.not_lt.mp fun hlt => hfit ⟨ha,hlt⟩⟩
  all_goals exact absurd trivial h

/-- A packet stays inside the buffer exactly if it fits, and is then handled as
on an unbounded one. -/
theorem parsePacket_inBounds_iff (print : Bool) (env : Env) (s : Server) (m : Mem) :
    ((parsePacket print env s).run MTU_SIZE m ≠ none ↔ Fits print env s m) ∧
    ∀ r m', (parsePacket print env s).run MTU_SIZE m = some (r,m') → r = Legacy.parsePacket env s m := by
  refine ⟨⟨fun hne => ?_,fun h => ?_⟩,fun r m' hr => ?_⟩
  · by_contra h
    exact hne (parse_none h)
  · obtain ⟨m',hm'⟩ := parse_of h
    rw [hm']
    exact Option.some_ne_none _
  · by_cases h : Fits print env s m
    · obtain ⟨m'',hm''⟩ := parse_of h
      cases hr.symm.trans hm''
      rfl
    · exact nomatch (parse_none h).symm.trans hr

end Parse
/-- An echo request of 28 bytes that claims 65535. -/
private def longEcho : Mem :=
  let m : Mem := fun _ => 0
  let m := m.store8 0 0x45
  let m := Wire.setIpLen m (htons 65535)
  let m := Wire.setIpProto m IP_ICMP_PROTO
  Wire.setIcmpType m 20 8

/-- A request for a page of 1500 bytes on an established connection. -/
private def pageRequest : Mem := craft clientId (Wire.PSH ||| Wire.ACK) 101 78 (ascii "GET /")
private def page : Env := ⟨0,true,.content (List.replicate MTU_SIZE 0x41)⟩
private def client : Server := ⟨[⟨clientId,.established,⟨78,78,8192,77⟩,⟨101,8192,100⟩⟩],1⟩

private theorem page_response : response page pageRequest 20 = httpServeFile page.file := by
  have hget : (payload pageRequest 20).take 4 = ascii "GET " := by decide +kernel
  rw [response, Legacy.httpHandleRequest, if_pos hget]

/-- The checksum of the echo reply runs past the buffer, and so does the copy of
a page that does not fit behind the headers. -/
theorem buffer_overrun : (parsePacket false page tcpInitServerInstance).run MTU_SIZE longEcho = none ∧
    (parsePacket false page client).run MTU_SIZE pageRequest = none := by
  have hecho : Legacy.packetDeserialize longEcho = .ipv4Icmp := by decide +kernel
  have hlen : (ntohs (Wire.ipLen longEcho)).toNat = 65535 := by decide +kernel
  have hpage : Legacy.packetDeserialize pageRequest = .ipv4Tcp := by decide +kernel
  have hihl : Wire.ihlBytes pageRequest = 20 := by decide +kernel
  refine ⟨parse_none fun h => ?_,parse_none fun h => ?_⟩
  · rw [Fits, hecho, hlen] at h
    exact absurd h (by decide)
  · rw [Fits, hpage, hihl, page_response] at h
    have hans : Answered client pageRequest 20 := ⟨_,rfl,rfl,by decide +kernel,by decide +kernel,by decide +kernel⟩
    have hfit := h.2 hans
    simp only [httpServeFile, page, List.length_append, List.length_replicate] at hfit
    omega

end LazyTcp.Legacy.Bounded
