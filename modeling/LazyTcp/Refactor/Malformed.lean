import LazyTcp.Refactor.Quiet

/-! Segments without a whole header or with a data offset that is no length of
their own. No function tests for them: they are ignored exactly when a segment
with the same fields is. -/
namespace LazyTcp.Refactor
open General General.Wire
variable {ht : HashTable} {m : Mem} {len : Nat}

/-- Shorter than a header, or a data offset below five words or past the end. -/
def Malformed (m : Mem) (len : Nat) : Prop :=
  len - ihlBytes m < 20 ∨ tcpHlen m (ihlBytes m) < 20 ∨ len - ihlBytes m < tcpHlen m (ihlBytes m)

/-- Nothing is sent and the map stays, whatever the environment does. -/
def NotActedUpon (ht : HashTable) (m : Mem) (len : Nat) : Prop :=
  ∀ env, (netDemux env ht m len).ret = 0 ∧ ∀ id, hashFind (netDemux env ht m len).table id = hashFind ht id

/-- The checksum fails or the segment is one that its connection ignores. -/
def WithoutEffect (ht : HashTable) (m : Mem) (len : Nat) : Prop :=
  checksumOk m len (ihlBytes m) = false ∨ Ignored (hashFind ht (segId m (ihlBytes m))) (segment m (ihlBytes m))

private theorem notActedUpon_iff (h : TableReachable ht) (hv : ipValidate m len = true)
    (hp : ipProto m = PROTO_TCP) : NotActedUpon ht m len ↔ WithoutEffect ht m len := by
  have hihl := (ipValidate_header hv).1
  have hdispatch (env : Env) : netDemux env ht m len = (tcpDispatch env ht m len (ihlBytes m)).toReply :=
    netDemux_tcp env ht hv hp
  constructor
  · intro hn
    obtain ⟨hret,hfind⟩ := hn calmEnv
    rw [hdispatch] at hret hfind
    cases hc : checksumOk m len (ihlBytes m) with
    | false => exact Or.inl hc
    | true => exact Or.inr (ignored_of_quiet h.inv hihl hihl hc hret hfind)
  · intro hw env
    rw [hdispatch]
    refine tcpDispatch_quiet h.inv.wf env fun hc => ?_
    rcases hw with hbad | hi
    · exact absurd hc (by rw [hbad]; decide)
    · exact hi

/-- For every reachable table and every TCP packet that ip_validate accepts: that
it is not acted upon if it is malformed holds if and only if a malformed one has a
bad checksum or the fields of a segment without effect. -/
theorem malformed_ignored_iff (h : TableReachable ht) (hv : ipValidate m len = true) (hp : ipProto m = PROTO_TCP) :
    (Malformed m len → NotActedUpon ht m len) ↔ (Malformed m len → WithoutEffect ht m len) := by
  rw [notActedUpon_iff h hv hp]

/-- The client's SYN with a data offset of zero words. -/
private def noOffset : Mem := setTcpDataOffset (craft clientId SYN 100 0) 20 0

theorem malformed_ignored_client : NotActedUpon .empty noOffset 40 := by
  refine (malformed_ignored_iff (Reachable.start _) (by decide +kernel) (by decide +kernel)).mpr ?_ ?_
  · exact fun _ => Or.inl (by decide +kernel)
  · exact Or.inr (Or.inl (by decide +kernel))

/-- The same with the checksum of its bytes. -/
private def signedNoOffset : Mem := setTcpChecksum noOffset 20 (tcpChecksum noOffset 40 20)

/-- It opens a connection and is answered with an IP header. -/
theorem noOffset_answered : TableReachable .empty ∧ ipValidate signedNoOffset 40 = true ∧
    ipProto signedNoOffset = PROTO_TCP ∧ Malformed signedNoOffset 40 ∧
    (netDemux calmEnv .empty signedNoOffset 40).ret = 20 ∧
    ¬ (Malformed signedNoOffset 40 → NotActedUpon .empty signedNoOffset 40) := by
  have hm : Malformed signedNoOffset 40 := Or.inr (Or.inl (by decide +kernel))
  have hret : (netDemux calmEnv .empty signedNoOffset 40).ret = 20 := by decide +kernel
  refine ⟨Reachable.start _,by decide +kernel,by decide +kernel,hm,hret,fun h => ?_⟩
  exact absurd (hret.symm.trans (h hm calmEnv).1) (by decide)

end LazyTcp.Refactor
