import LazyTcp.Legacy.Machine
import LazyTcp.Refactor.Craft

/-! Which resets the two stacks honour. The first one tests the sequence number
as it stands in the header, the second one the decoded number. -/
namespace LazyTcp.Rewrite
open General General.Wire

/-- The 8192 numbers from next on, modulo 2^32. -/
def InReceiveWindow (seq next : U32) : Prop := (seq - next).toNat < 8192

/-- One connection in both stacks, with the same receive state. -/
structure SameReceiver (s : Legacy.Server) (old : Legacy.TCB) (ht : Refactor.HashTable) (new : Refactor.TCB) : Prop where
  unique : s.Unique
  listed : Legacy.tcpGetState s old.id = some old
  wf : ht.WF
  stored : Refactor.hashFind ht new.id = some new
  next : old.recv.next = new.recv.next
  oldWindow : old.recv.window = 8192
  newWindow : new.recv.window = 8192

def LegacyRemoves (m : Mem) (o : Nat) (s : Legacy.Server) (old : Legacy.TCB) : Prop :=
  Legacy.tcpGetState (Legacy.tcpGotRst m o old s).2 old.id = none

def RefactorRemoves (iss : U32) (m : Mem) (o : Nat) (ht : Refactor.HashTable) (new : Refactor.TCB) : Prop :=
  Refactor.hashFind (Refactor.tcbStateUpdate iss m o ht new .rst).2.2 new.id = none

/-- Both tests are the modular interval, each on its own reading of the number. -/
private theorem window_test (seq next : U32) :
    (seqGeq seq next && seqLt seq (next + 8192)) = true ↔ InReceiveWindow seq next := by
  rw [window_iff _ _ _ (by decide), decide_eq_true_eq]
  rfl

section Receivers
variable {s : Legacy.Server} {old : Legacy.TCB} {ht : Refactor.HashTable} {new : Refactor.TCB}
  (h : SameReceiver s old ht new) (m : Mem) (o : Nat)
include h

private theorem legacyRemoves_iff : LegacyRemoves m o s old ↔ InReceiveWindow (tcpSeqNum m o) new.recv.next := by
  have htest : Legacy.rstHonoured m o old = true ↔ InReceiveWindow (tcpSeqNum m o) new.recv.next := by
    rw [Legacy.rstHonoured, h.oldWindow, h.next]
    exact window_test ..
  rw [LegacyRemoves, Legacy.tcpGotRst_server, ← htest]
  cases Legacy.rstHonoured m o old with
  | true => simp [(Legacy.tcpRemoveConnection_spec h.unique old).2]
  | false => simp [h.listed]

private theorem refactorRemoves_iff (iss : U32) :
    RefactorRemoves iss m o ht new ↔ InReceiveWindow (ntohl (tcpSeqNum m o)) new.recv.next := by
  have htest := window_test (ntohl (tcpSeqNum m o)) new.recv.next
  rw [← h.newWindow] at htest
  rw [RefactorRemoves, Refactor.tcbStateUpdate, ← htest]
  split
  case isTrue hin => simp [hin, (Refactor.hashDelete_spec h.wf new).2]
  case isFalse hout => simp [hout, h.stored]

/-- For every receive state and header the two stacks honour the same resets,
those in the window, if and only if the bytes of the sequence number are in the
window in both orders or in neither. -/
theorem resets_agree_iff (iss : U32) :
    ((LegacyRemoves m o s old ↔ RefactorRemoves iss m o ht new) ∧
      (RefactorRemoves iss m o ht new ↔ InReceiveWindow (ntohl (tcpSeqNum m o)) new.recv.next)) ↔
    (InReceiveWindow (tcpSeqNum m o) new.recv.next ↔ InReceiveWindow (ntohl (tcpSeqNum m o)) new.recv.next) := by
  rw [legacyRemoves_iff h, refactorRemoves_iff h]
  exact and_iff_left Iff.rfl

end Receivers

open Refactor (craft clientId clientSyn clientAck clientOpen tcpStep calmEnv)

/-- The client's connection in the first stack, with the receive state it has in the second. -/
private def listedClient : Legacy.TCB := ⟨Legacy.clientId,.established,⟨78,78,8192,77⟩,⟨101,8192,100⟩⟩

private theorem client_receiver :
    SameReceiver ⟨[listedClient],1⟩ listedClient (run tcpStep .empty [clientSyn,clientAck]) clientOpen where
  unique := List.nodup_singleton _
  listed := by decide
  wf := (Refactor.TableReachable.inv ⟨_,rfl⟩).wf
  stored := Refactor.run_clientAck
  next := rfl
  oldWindow := rfl
  newWindow := rfl

/-- Far out of the window in either order. -/
theorem resets_agree_far : LegacyRemoves (craft clientId RST 60000 0) 20 ⟨[listedClient],1⟩ listedClient ↔
    RefactorRemoves 0 (craft clientId RST 60000 0) 20 (run tcpStep .empty [clientSyn,clientAck]) clientOpen := by
  refine ((resets_agree_iff client_receiver (craft clientId RST 60000 0) 20 0).mpr ?_).1
  unfold InReceiveWindow
  exact iff_of_false (by decide +kernel) (by decide +kernel)

/-- The number the receiver expects next is ignored by the first stack. -/
theorem expected_reset_ignored : ¬ ((LegacyRemoves (craft clientId RST 101 0) 20 ⟨[listedClient],1⟩ listedClient ↔
      RefactorRemoves 0 (craft clientId RST 101 0) 20 (run tcpStep .empty [clientSyn,clientAck]) clientOpen) ∧
    (RefactorRemoves 0 (craft clientId RST 101 0) 20 (run tcpStep .empty [clientSyn,clientAck]) clientOpen ↔
      InReceiveWindow (ntohl (tcpSeqNum (craft clientId RST 101 0) 20)) clientOpen.recv.next)) := by
  have hin : InReceiveWindow (ntohl (tcpSeqNum (craft clientId RST 101 0) 20)) clientOpen.recv.next := by
    unfold InReceiveWindow
    decide +kernel
  have hout : ¬ InReceiveWindow (tcpSeqNum (craft clientId RST 101 0) 20) clientOpen.recv.next := by
    unfold InReceiveWindow
    decide +kernel
  rw [legacyRemoves_iff client_receiver, refactorRemoves_iff client_receiver]
  exact fun h => hout (h.1.mpr hin)

end LazyTcp.Rewrite
