import OISA.Esim.Run

/-!
# Locks of directory entries

`Directory::LockEntry` and `Directory::UnlockEntry`, on top of the event engine: a handler that
finds the entry locked suspends its frame in the queue of the lock, and the frame that unlocks the
entry wakes up all of them.
-/

namespace OISA.Memory

open OISA.Esim

structure LockRecord where
  lock : ℕ
  frame : Option FrameId
  access_id : ℕ
  deriving DecidableEq, Repr

structure DirectoryLocks where
  num_sets : ℕ
  num_ways : ℕ
  world : World := {}
  access_id : ℕ → ℕ := fun _ => 0
  locked : List LockRecord := []
  waits : List (ℕ × FrameId) := []
  wakes : List (ℕ × FrameId) := []

namespace DirectoryLocks

/-- Position of the lock of an entry, which is also its queue. -/
def lockIndex (s : DirectoryLocks) (set_id way_id : ℕ) : ℕ := set_id * s.num_ways + way_id

def num_locks (s : DirectoryLocks) : ℕ := s.num_sets * s.num_ways

def inRange (s : DirectoryLocks) (set_id way_id : ℕ) : Bool :=
  set_id < s.num_sets && way_id < s.num_ways

/-- Lock the entry, or wait for the given event. -/
def LockEntry (s : DirectoryLocks) (set_id way_id : ℕ) (event : EventId) (access_id : ℕ) :
    Option DirectoryLocks :=
  let lock := s.lockIndex set_id way_id
  if access_id = 0 ∨ s.inRange set_id way_id = false then none
  else if s.access_id lock ≠ 0 then
    (World.step (.wait lock (some event) false) s.world).map fun world =>
      { s with
        world := world
        waits := (s.world.engine.current_frame.toList.map fun f => (lock, f)) ++ s.waits }
  else
    some { s with
      access_id := Function.update s.access_id lock access_id
      locked := ⟨lock, s.world.engine.current_frame, access_id⟩ :: s.locked }

def WakeupAll (queue : QueueId) : ℕ → World → Option World
  | 0, world => some world
  | n + 1, world =>
    if (world.queues queue).isEmpty then some world
    else (World.step (.wakeupOne queue) world).bind (WakeupAll queue n)

/-- Unlock the entry and wake up all waiting frames. -/
def UnlockEntry (s : DirectoryLocks) (set_id way_id : ℕ) (access_id : ℕ) : Option DirectoryLocks :=
  let lock := s.lockIndex set_id way_id
  if s.inRange set_id way_id = false ∨ s.access_id lock = 0 ∨ access_id ≠ s.access_id lock then none
  else
    (WakeupAll lock (s.world.queues lock).length s.world).map fun world =>
      { s with
        world := world
        access_id := Function.update s.access_id lock 0
        wakes := ((s.world.queues lock).reverse.map fun f => (lock, f)) ++ s.wakes }

/-- Everything else in the system works on the engine, and on no queue of the locks. -/
inductive Op
  | esim (op : Esim.Op)
  | lockEntry (set_id way_id access_id : ℕ)
  | unlockEntry (set_id way_id access_id : ℕ)
  deriving DecidableEq, Repr

def onLockQueue (s : DirectoryLocks) : Esim.Op → Bool
  | .wait queue _ _ => queue < s.num_locks
  | .wakeupOne queue => queue < s.num_locks
  | _ => false

/-- The frames wait for the event `find_and_lock`, which tries to lock the entry again. -/
def step (find_and_lock : EventId) (op : Op) (s : DirectoryLocks) : Option DirectoryLocks :=
  match op with
  | .esim op =>
    if s.onLockQueue op then none
    else (World.step op s.world).map fun world => { s with world := world }
  | .lockEntry set_id way_id access_id =>
    if World.callable s.world.engine then s.LockEntry set_id way_id find_and_lock access_id else none
  | .unlockEntry set_id way_id access_id =>
    if World.callable s.world.engine then s.UnlockEntry set_id way_id access_id else none

end DirectoryLocks

end OISA.Memory
