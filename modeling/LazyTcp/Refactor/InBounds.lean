import LazyTcp.Refactor.Bounds
import LazyTcp.Refactor.LogStream

/-! The loop of server_run with every access to its buffer guarded: the device
writes into it, the log and the device read from it, and net_demux works in it
between. -/
namespace LazyTcp.Refactor
open General
namespace Bounded
open Guarded

def tunRead (packet : List U8) : Guarded Unit := fill 0 packet

/-- log_event copies the packet into its event. -/
def logEvent (len : U16) : Guarded Unit := do
  let _ ← fetch 0 len.toNat

def tunWrite (len : Nat) : Guarded (List U8) := fetch 0 len

/-- One turn of server_run with the log on, on the table and the traffic so far. -/
def serverTurn (r : HashTable × List (Bool × List U8)) (t : Turn) : Guarded (HashTable × List (Bool × List U8)) := do
  let nread := t.packet.length
  if nread = 0 then return r
  tunRead t.packet
  logEvent (.ofNat 16 nread)
  let (nwrite,table) ← netDemux t.env r.1 nread
  if nwrite = 0 then return (table,r.2 ++ [(true,t.packet)])
  logEvent (.ofNat 16 nwrite)
  let packet ← tunWrite nwrite
  return (table,r.2 ++ [(true,t.packet)] ++ [(false,packet)])

def serverRun (turns : List Turn) : Guarded (HashTable × List (Bool × List U8)) := turns.foldlM serverTurn (.empty,[])

variable {last : Nat} (m : Mem)

private theorem tunRead_run {packet : List U8} (h : packet.length ≤ last + 1) :
    (tunRead packet).run last m = some ((),Refactor.tunRead m packet) := by
  rw [tunRead, fill_of (within_iff.mpr (by omega))]
  refine congrArg (fun b => some ((),b)) ?_
  funext j
  by_cases hj : j < packet.length
  · rw [Mem.copy_inside _ _ _ _ (Nat.zero_le j) (by omega), Nat.sub_zero, Nat.zero_add, Refactor.tunRead,
      List.getD_eq_getElem?_getD, List.getD_eq_getElem?_getD, List.getElem?_eq_getElem hj]
    rfl
  · rw [Mem.copy_other _ _ _ _ (by omega), Refactor.tunRead, List.getD_eq_getElem?_getD,
      List.getElem?_eq_none (Nat.le_of_not_lt hj)]
    rfl

private theorem logEvent_run {len : Nat} (h : len ≤ last + 1) : (logEvent (.ofNat 16 len)).run last m = some ((),m) := by
  have hle : (BitVec.ofNat 16 len).toNat ≤ len := Nat.mod_le ..
  rw [logEvent, run_bind_of (fetch_of (within_iff.mpr (by omega)))]
  rfl

variable (r : HashTable × List (Bool × List U8)) (t : Turn)

/-- A turn that gets an answer. -/
private theorem serverTurn_run (hn : t.packet.length ≠ 0) {reply : Reply}
    (hr : Refactor.netDemux t.env r.1 (Refactor.tunRead m t.packet) t.packet.length = reply) :
    (serverTurn r t).run (MTU_SIZE - 1) m = some ((reply.table,r.2 ++ [(true,t.packet)] ++
      if reply.ret = 0 then [] else [(false,reply.buf.bytes 0 reply.ret)]),reply.buf) := by
  have hmtu : MTU_SIZE = 1500 := rfl
  have hfits := t.fits
  have hret := netDemux_ret_le t.env r.1 (m := Refactor.tunRead m t.packet) hfits
  rw [hr] at hret
  rw [serverTurn, if_neg hn, run_bind_of (tunRead_run m (by omega)), run_bind_of (logEvent_run _ (by omega)),
    run_bind_of (netDemux_run t.env r.1 _ (by decide) (by omega)), hr]
  by_cases hz : reply.ret = 0
  · simp only [hz, if_true, List.append_nil]
    rfl
  · simp only [hz, if_false]
    rw [run_bind_of (logEvent_run _ (by omega)), tunWrite, run_bind_of (fetch_of (within_iff.mpr (by omega)))]
    rfl

private theorem serverTurn_some : ∃ r', (serverTurn r t).run (MTU_SIZE - 1) m = some r' := by
  by_cases hn : t.packet.length = 0
  · exact ⟨(r,m),by rw [serverTurn, if_pos hn]; rfl⟩
  · exact ⟨_,serverTurn_run m r t hn rfl⟩

private theorem turns_some (turns : List Turn) :
    ∃ r', (turns.foldlM serverTurn r).run (MTU_SIZE - 1) m = some r' := by
  induction turns generalizing m r with
  | nil => exact ⟨(r,m),rfl⟩
  | cons t turns ih =>
    obtain ⟨⟨r',m'⟩,hr⟩ := serverTurn_some m r t
    obtain ⟨r'',hr'⟩ := ih m' r'
    exact ⟨r'',by rw [List.foldlM_cons, run_bind_of hr, hr']⟩

/-- The turns so far and one more. -/
private theorem serverRun_snoc {turns : List Turn} {m' : Mem} (h : (serverRun turns).run (MTU_SIZE - 1) m = some (r,m')) :
    (serverRun (turns ++ [t])).run (MTU_SIZE - 1) m = (serverTurn r t).run (MTU_SIZE - 1) m' := by
  rw [serverRun] at h
  rw [serverRun, List.foldlM_append, run_bind_of h, List.foldlM_cons]
  exact congrArg (fun x : Guarded _ => x.run (MTU_SIZE - 1) m') (bind_pure (serverTurn r t))

end Bounded

/-- The turn whose packet is in the buffer and not handled yet. -/
def Server.arriving (v : Server) : List Turn :=
  match v.place with
  | .demuxing t => [t]
  | _ => []

/-- The server stands where the guarded loop stands after the handled turns. -/
structure Server.Guarded (v : Server) (handled : List Turn) (traffic : List (Bool × List U8)) (tu : Mem) : Prop where
  inBounds : (Bounded.serverRun handled).run (MTU_SIZE - 1) (fun _ => 0) = some ((v.table,traffic),tu)
  turns : v.turns = handled ++ v.arriving
  traffic : v.traffic ++ v.outgoing = traffic ++ v.arriving.map fun t => (true,t.packet)
  buffer : v.tu = v.arriving.foldl (fun tu t => tunRead tu t.packet) tu
  arrived : ∀ t ∈ v.arriving, t.packet.length ≠ 0

/-- The invariant; a faulted log never happens. -/
private def Server.Agrees (v : Server) : Prop := v.place = .faulted ∨ ∃ handled traffic tu, v.Guarded handled traffic tu

/-- Neither the log nor the flag of the signal is part of it. -/
private theorem agrees_flags {v : Server} (h : v.Agrees) (shutdown logging : Bool) :
    ({ v with shutdown := shutdown, logging := logging } : Server).Agrees := by
  rcases h with hf | ⟨handled,traffic,tu,hg⟩
  · exact Or.inl hf
  · exact Or.inr ⟨handled,traffic,tu,hg.inBounds,hg.turns,hg.traffic,hg.buffer,hg.arrived⟩

private theorem agrees_log {s : Session} (h : s.server.Agrees) (tu : Option Mem) (len : Nat) (dir : U8)
    (now : BitVec 64) (written : Bool) : (s.log tu len dir now written).server.Agrees := by
  rw [Session.log]
  split
  · split
    · exact Or.inl rfl
    · split
      · exact h
      · exact agrees_flags h s.server.shutdown false
  · exact h

/-- Step lemma for the server. -/
private theorem agrees_server {s : Session} (h : s.server.Agrees) (t : Turn) (now : BitVec 64) (written : Bool) :
    (serverRun s t now written).server.Agrees := by
  have hidle : ∀ t ∈ ([] : List Turn), t.packet.length ≠ 0 := fun _ ht => absurd ht List.not_mem_nil
  obtain ⟨⟨tu,table,shutdown,logging,place,turns,traffic⟩,pipe,viewer,exited⟩ := s
  rcases h with hf | ⟨handled,traffic',tu',hrun,hturns,htraffic,hbuf,harr⟩
  · obtain rfl : place = .faulted := hf
    exact Or.inl rfl
  cases place with
  | done | faulted => exact Or.inr ⟨handled,traffic',tu',hrun,hturns,htraffic,hbuf,harr⟩
  | head =>
    cases shutdown with
    | true =>
      refine agrees_log (s := ⟨⟨tu,table,true,logging,.done,turns,traffic⟩,pipe,viewer,exited⟩) ?_ none 0 LOG_SHUTDOWN now
        written
      exact Or.inr ⟨handled,traffic',tu',hrun,hturns,htraffic,hbuf,harr⟩
    | false => exact Or.inr ⟨handled,traffic',tu',hrun,hturns,htraffic,hbuf,harr⟩
  | reading =>
    simp only [serverRun]
    split
    case isTrue => exact Or.inr ⟨handled,traffic',tu',hrun,hturns,htraffic,hbuf,harr⟩
    case isFalse hn =>
      refine agrees_log ?_ ..
      refine Or.inr ⟨handled,traffic',tu',hrun,?_,?_,?_,?_⟩
      · exact congrArg (· ++ [t]) (hturns.trans (List.append_nil _))
      · have hold : traffic ++ [] = traffic' ++ [] := htraffic
        simp only [List.append_nil] at hold
        simp only [Server.arriving, Server.outgoing, List.append_nil, List.map_cons, List.map_nil, hold]
      · exact congrArg (tunRead · t.packet) hbuf
      · intro t' ht'
        obtain rfl := List.mem_singleton.mp ht'
        exact hn
  | demuxing t' =>
    have hn : t'.packet.length ≠ 0 := harr t' (List.mem_singleton_self t')
    have htu : tu = tunRead tu' t'.packet := hbuf
    have hold : traffic ++ [] = traffic' ++ [(true,t'.packet)] := htraffic
    rw [List.append_nil] at hold
    have hnext := (Bounded.serverRun_snoc _ _ t' hrun).trans (Bounded.serverTurn_run tu' (table,traffic') t' hn rfl)
    rw [← htu, ← hold] at hnext
    simp only [serverRun]
    split
    case isTrue hz =>
      rw [if_pos hz, List.append_nil] at hnext
      exact Or.inr ⟨handled ++ [t'],traffic,_,hnext,hturns.trans (List.append_nil _).symm,rfl,rfl,hidle⟩
    case isFalse hz =>
      rw [if_neg hz] at hnext
      refine agrees_log ?_ ..
      exact Or.inr ⟨handled ++ [t'],_,_,hnext,hturns.trans (List.append_nil _).symm,(List.append_nil _).symm,rfl,hidle⟩
  | writing nwrite =>
    refine Or.inr ⟨handled,traffic',tu',hrun,hturns,?_,hbuf,hidle⟩
    exact (List.append_nil _).trans htraffic

private theorem agrees_step {s : Session} (h : s.server.Agrees) (e : Happening) : (sessionStep s e).server.Agrees := by
  cases e with
  | server t now written =>
    rw [sessionStep]
    split
    · exact h
    · exact agrees_server h t now written
  | sigusr1 => exact agrees_flags h true s.server.logging
  | exit => exact h
  | view =>
    rw [sessionStep]
    split <;> exact h
  | interrupt =>
    rw [sessionStep]
    split <;> exact h

/-- No run of the server touches a byte outside of its buffer of MTU_SIZE bytes,
whatever the device hands it: the guarded loop gets through all turns, and what
it leaves behind is what the server has. -/
theorem server_in_bounds (verbose : Bool) (happenings : List Happening) :
    ((Bounded.serverRun (run sessionStep (.start verbose) happenings).server.turns).run (MTU_SIZE - 1)
      (fun _ => 0)).isSome ∧
    ∃ handled traffic tu, (run sessionStep (.start verbose) happenings).server.Guarded handled traffic tu := by
  have hstart : (Session.start verbose).server.Agrees := Or.inr ⟨[],[],_,rfl,rfl,rfl,rfl,nofun⟩
  have hinv : (run sessionStep (.start verbose) happenings).server.Agrees :=
    Reachable.invariant (P := fun s : Session => s.server.Agrees) ⟨happenings,rfl⟩ hstart fun _ e hs => agrees_step hs e
  obtain ⟨queued,hc⟩ := Session.reachable_faithful (s := run sessionStep (.start verbose) happenings) ⟨happenings,rfl⟩
  obtain ⟨r,hr⟩ := Bounded.turns_some (fun _ => 0) (.empty,[]) (run sessionStep (.start verbose) happenings).server.turns
  exact ⟨by rw [Bounded.serverRun, hr]; rfl,hinv.resolve_left hc.place⟩

end LazyTcp.Refactor
