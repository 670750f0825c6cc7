import Misan.Tsan
import Misan.Foundation.Causality
import Mathlib.Data.Finset.Dedup
import Mathlib.Logic.Relation

/-!
# Histories of the thread sanitizer

What a history of calls means, apart from the clocks the runtime keeps: which accesses it contains,
which of its calls happen before which, and what the threads have been told by the locks. Histories
list the latest call first; the position of a call is the number of calls before it.
-/

namespace Misan

variable {Thr : Type} [DecidableEq Thr]

namespace TsanCall

def thread? : TsanCall Thr → Option Thr
  | .init thr | .access thr _ _ _ | .preLock thr _ _ | .postLock thr _ _ | .preUnlock thr _ _
  | .postUnlock thr _ _ => some thr
  | .mutexCreate _ | .mutexDestroy _ => none

/-- The access a call makes through `tsan_access`, as thread, address and direction. -/
def access? : TsanCall Thr → Option (Thr × Addr × Bool)
  | .access thr addr _ isWrite => some (thr, addr, isWrite)
  | .preLock thr addr _ | .preUnlock thr addr _ => some (thr, addr, true)
  | _ => none

def dataAccess? : TsanCall Thr → Option (Thr × Addr × Bool)
  | .access thr addr _ isWrite => some (thr, addr, isWrite)
  | _ => none

def locks? : TsanCall Thr → Option Addr
  | .postLock _ addr _ => some addr
  | _ => none

def unlocks? : TsanCall Thr → Option Addr
  | .preUnlock _ addr _ | .postUnlock _ addr _ => some addr
  | _ => none

end TsanCall

def lastAccess (addr : Addr) : List (TsanCall Thr) → Option (Thr × Bool)
  | [] => none
  | c :: history =>
      match c.access? with
      | some (thr, addr', isWrite) =>
          if addr' = addr then some (thr, isWrite) else lastAccess addr history
      | none => lastAccess addr history

/-- The calls made before the latest access to `addr`. -/
def beforeAccess (addr : Addr) : List (TsanCall Thr) → List (TsanCall Thr)
  | [] => []
  | c :: history =>
      match c.access? with
      | some (_, addr', _) => if addr' = addr then history else beforeAccess addr history
      | none => beforeAccess addr history

/-- Every call of the history, with what came before it, satisfies `P`. -/
def Along (P : TsanCall Thr → List (TsanCall Thr) → Prop) (history : List (TsanCall Thr)) : Prop :=
  ∀ c before, c :: before <:+ history → P c before

/-! ### Happens-before -/

/-- Program order, and an unlock before a later lock of the same mutex. -/
def SyncOrder (history : List (TsanCall Thr)) (i j : Nat) : Prop :=
  i < j ∧ ∃ c d, history.reverse[i]? = some c ∧ history.reverse[j]? = some d ∧
    ((∃ thr, c.thread? = some thr ∧ d.thread? = some thr) ∨
      ∃ addr, c.unlocks? = some addr ∧ d.locks? = some addr)

def HappensBefore (history : List (TsanCall Thr)) : Nat → Nat → Prop :=
  Relation.TransGen (SyncOrder history)

/-- Any two conflicting accesses of the program are ordered. -/
def RaceFree (history : List (TsanCall Thr)) : Prop :=
  ∀ i j c d thr thr' addr w w', i < j → history.reverse[i]? = some c →
    history.reverse[j]? = some d → c.dataAccess? = some (thr, addr, w) →
    d.dataAccess? = some (thr', addr, w') → thr ≠ thr' → (w || w') = true →
    HappensBefore history i j

/-- The latest call, an access to `addr`, conflicts with an earlier access of another thread that
does not happen before it. -/
def Racy (c : TsanCall Thr) (before : List (TsanCall Thr)) (addr : Addr) : Prop :=
  ∃ thr w, c.access? = some (thr, addr, w) ∧ ∃ i d thr' w', before.reverse[i]? = some d ∧
    d.access? = some (thr', addr, w') ∧ thr' ≠ thr ∧ (w || w') = true ∧
    ¬ HappensBefore (c :: before) i before.length

/-! ### Lock sections -/

/-- Where a run stands with its locks. -/
structure LockView (Thr : Type) where
  created : Addr → Bool
  locking : Thr → Option Addr
  holder : Addr → Option Thr
  unlocking : Thr → Option Addr

/-- The discipline of lock sections: a mutex is created once and before use, and a thread goes
through `pre_lock`, `post_lock`, `pre_unlock` and `post_unlock` in order, alone between the second
and the third, and does nothing else between the two halves of a lock or an unlock. -/
def LockView.step (l : LockView Thr) : TsanCall Thr → Option (LockView Thr)
  | .init _ => some l
  | .access thr _ _ _ =>
      if l.locking thr = none ∧ l.unlocking thr = none then some l else none
  | .mutexCreate addr =>
      if l.created addr = false then some { l with created := Function.update l.created addr true }
      else none
  | .mutexDestroy _ => none
  | .preLock thr addr _ =>
      if l.created addr = true ∧ l.locking thr = none ∧ l.unlocking thr = none then
        some { l with locking := Function.update l.locking thr (some addr) }
      else none
  | .postLock thr addr _ =>
      if l.locking thr = some addr ∧ l.holder addr = none then
        some { l with
          locking := Function.update l.locking thr none
          holder := Function.update l.holder addr (some thr) }
      else none
  | .preUnlock thr addr _ =>
      if l.holder addr = some thr ∧ l.locking thr = none ∧ l.unlocking thr = none then
        some { l with
          holder := Function.update l.holder addr none
          unlocking := Function.update l.unlocking thr (some addr) }
      else none
  | .postUnlock thr addr _ =>
      if l.unlocking thr = some addr then
        some { l with unlocking := Function.update l.unlocking thr none }
      else none

def lockView : List (TsanCall Thr) → Option (LockView Thr)
  | [] => some ⟨fun _ => false, fun _ => none, fun _ => none, fun _ => none⟩
  | c :: history => (lockView history).bind (·.step c)

def LockDiscipline (history : List (TsanCall Thr)) : Prop := (lockView history).isSome = true

instance (history : List (TsanCall Thr)) : Decidable (LockDiscipline history) :=
  inferInstanceAs (Decidable (_ = true))

/-! ### What the threads know -/

/-- What a call means to the synchronisation, with the slots of `tsan_mutexes` as the stores. -/
def tsanAct (s : TsanState Thr) : TsanCall Thr → SyncAct Thr (Fin 1024)
  | .init _ => .idle
  | .access thr addr _ _ | .preLock thr addr _ | .preUnlock thr addr _ =>
      match tsanShadowGet s.shadow addr true with
      | some _ => .tick thr
      | none => .idle
  | .mutexCreate addr =>
      match tsanMutexFind s.mutexes addr true with
      | some (idx, _) => .reset idx
      | none => .idle
  | .mutexDestroy _ => .idle
  | .postLock thr addr _ =>
      match tsanMutexFind s.mutexes addr false with
      | some (idx, _) => .acquire thr idx
      | none => .idle
  | .postUnlock thr addr _ =>
      match tsanMutexFind s.mutexes addr false with
      | some (idx, _) => .release thr idx
      | none => .idle

/-- The releases known after a history. -/
noncomputable def tsanKnowledge : List (TsanCall Thr) → Knowledge Thr (Fin 1024)
  | [] => .initial
  | c :: before =>
      match tsanRun before with
      | .ok s => (tsanKnowledge before).step (tsanAct s c)
      | .error _ => tsanKnowledge before

/-! ### The size of a history -/

def ThreadsFit (history : List (TsanCall Thr)) : Prop :=
  (history.filterMap TsanCall.thread?).toFinset.card ≤ 63

instance (history : List (TsanCall Thr)) : Decidable (ThreadsFit history) :=
  inferInstanceAs (Decidable (_ ≤ _))

def accessedAddrs (history : List (TsanCall Thr)) : Finset Addr :=
  (history.filterMap fun c => c.access?.map fun a => a.2.1).toFinset

def ShadowFits (history : List (TsanCall Thr)) : Prop := (accessedAddrs history).card ≤ 65536

instance (history : List (TsanCall Thr)) : Decidable (ShadowFits history) :=
  inferInstanceAs (Decidable (_ ≤ _))

/-- An access to `addr` was made while the table had room for it. -/
def Shadowed (addr : Addr) (history : List (TsanCall Thr)) : Prop :=
  ∃ c before thr isWrite, c :: before <:+ history ∧ c.access? = some (thr, addr, isWrite) ∧
    ShadowFits (c :: before)

/-- The thread whose own component a call increments, in its clock or in the copy a mutex gets. -/
def TsanCall.increments? : TsanCall Thr → Option Thr
  | .access thr _ _ _ | .preLock thr _ _ | .preUnlock thr _ _ | .postUnlock thr _ _ => some thr
  | _ => none

def TsanState.NoWrap (s : TsanState Thr) (c : TsanCall Thr) : Prop :=
  ∀ thr tid, c.increments? = some thr → s.currentTid thr = some tid →
    (s.threads tid).vc tid ≠ BitVec.allOnes 64

def ClocksFit (history : List (TsanCall Thr)) : Prop :=
  Along (fun c before => ∀ s, tsanRun before = .ok s → s.NoWrap c) history

end Misan
