import MiniMem.Machine
import MiniMem.XArray
import Mathlib.Data.List.Nodup
import Mathlib.Logic.Function.Basic

/-!
# MiniMem.Kernel.ProcStats

Statistics by process, as `minimem_proc_stats.c` keeps them: an xarray of
entries by pid, their number in `mm_proc_stats_count`, and a spinlock around
what changes the two.  Threads record events, one collects the entries of
processes that are gone, and writing 0 to `per_process_stats` clears all of
them.

Every access to what the threads share is a step of its own, under the lock
or not, and the steps of different threads interleave freely.  The flag that
says whether anything is tracked is looked at once, before the lock; the
collector looks its entry up before it takes the lock and does not look
again, and what `xa_store` returns is not looked at.
-/

namespace MiniMem

/-! ## Entries -/

/-- `struct minimem_proc_entry`. -/
structure ProcEntry where
  pid : Nat
  uid : UInt32
  pagesCompressed : Int64
  pagesDecompressed : Int64
  bytesSaved : Int64
  compressNs : Int64
  decompressNs : Int64
  deriving DecidableEq, Repr

/-- The entry as `minimem_proc_stats_alloc` fills it in. -/
def ProcEntry.new (pid : Nat) (uid : UInt32) : ProcEntry := ⟨pid, uid, 0, 0, 0, 0, 0⟩

/-- What `minimem_proc_stats_compress` or `minimem_proc_stats_decompress` is told. -/
inductive StatsEvent where
  | compress (bytesSaved nsElapsed : UInt64)
  | decompress (nsElapsed : UInt64)
  deriving DecidableEq, Repr

/-- The event is added to the counters of the entry. -/
def ProcEntry.record (e : ProcEntry) : StatsEvent → ProcEntry
  | .compress bytesSaved nsElapsed => { e with
      pagesCompressed := e.pagesCompressed + 1
      bytesSaved := e.bytesSaved + bytesSaved.toInt64
      compressNs := e.compressNs + nsElapsed.toInt64 }
  | .decompress nsElapsed => { e with
      pagesDecompressed := e.pagesDecompressed + 1
      decompressNs := e.decompressNs + nsElapsed.toInt64 }

/-- `MINIMEM_PROC_STATS_MAX_ENTRIES`. -/
def procStatsMaxEntries : Int := 1024

/-! ## Threads -/

/-- `current`, and the event that it records. -/
structure Recorder where
  pid : Nat
  uid : UInt32
  event : StatsEvent
  deriving DecidableEq, Repr

/-- How `minimem_proc_stats_alloc` leaves its section under the lock: the entry is stored, there
is one already, or there are too many. -/
inductive AllocExit where
  | stored
  | found
  | full
  deriving DecidableEq, Repr

/-- Where a thread stands: outside; in `minimem_proc_stats_compress` or
`minimem_proc_stats_decompress` with what they call; in `minimem_proc_stats_gc`; in
`per_process_stats_store`.  Entries are known by their addresses. -/
inductive StatsPc where
  | idle
  | find (r : Recorder)
  | allocCheck (r : Recorder)
  | allocNew (r : Recorder)
  | allocLock (r : Recorder) (entry : Nat)
  | allocLoad (r : Recorder) (entry : Nat)
  | allocCount (r : Recorder) (entry : Nat)
  | allocStore (r : Recorder) (entry : Nat)
  | allocInc (r : Recorder) (entry : Nat)
  | allocUnlock (r : Recorder) (entry : Nat) (exit : AllocExit)
  | allocFree (r : Recorder) (entry : Nat) (again : Bool)
  | allocAgain (r : Recorder)
  | update (r : Recorder) (entry : Nat)
  | gcNext (cursor : Nat)
  | gcCheck (pid entry : Nat)
  | gcLock (pid entry : Nat)
  | gcErase (pid entry : Nat)
  | gcDec (pid entry : Nat)
  | gcUnlock (pid entry : Nat)
  | gcFree (pid entry : Nat)
  | clearLock
  | clearNext (cursor : Nat)
  | clearFree (pid entry : Nat)
  | clearCount
  | clearUnlock
  deriving DecidableEq, Repr

/-- What the threads share, and where each of them stands.  `objs` are the entries by address,
`next` an address that has not been handed out, and `freed` the addresses handed to `kfree`
or `kfree_rcu`, one after another. -/
structure ProcStats where
  enabled : Bool
  count : Int
  xa : XArray Nat
  objs : Nat → ProcEntry
  next : Nat
  freed : List Nat
  lock : Option Nat
  pc : Nat → StatsPc

/-- `minimem_proc_stats_init`. -/
def ProcStats.init : ProcStats := ⟨false, 0, ∅, fun _ => .new 0 0, 0, [], none, fun _ => .idle⟩

/-- A thread enters a function. -/
inductive StatsCall where
  | record (r : Recorder)
  | gc
  | store (val : Int)
  deriving DecidableEq, Repr

/-- A thread enters a function, or takes its next step with the outcome of `kzalloc`, of
`xa_store`, or of the question whether a process is there. -/
inductive StatsAct where
  | call (i : Nat) (c : StatsCall)
  | step (i : Nat) (ok : Bool)
  deriving DecidableEq, Repr

/-- The thread goes on at another place. -/
def ProcStats.goto (s : ProcStats) (i : Nat) (pc : StatsPc) : ProcStats :=
  { s with pc := Function.update s.pc i pc }

/-- `spin_lock`, which waits while another thread is inside. -/
def ProcStats.spinLock (s : ProcStats) (i : Nat) (pc : StatsPc) : Option ProcStats :=
  if s.lock.isSome then none else some ({ s with lock := some i }.goto i pc)

/-- `spin_unlock`. -/
def ProcStats.spinUnlock (s : ProcStats) (i : Nat) (pc : StatsPc) : ProcStats :=
  { s with lock := none }.goto i pc

/-- `kfree`, or `kfree_rcu`. -/
def ProcStats.kfree (s : ProcStats) (entry i : Nat) (pc : StatsPc) : ProcStats :=
  { s with freed := s.freed ++ [entry] }.goto i pc

/-- The first step of a function: all but a write to `per_process_stats` look whether
anything is tracked. -/
def ProcStats.enter (s : ProcStats) (i : Nat) : StatsCall → ProcStats
  | .record r => if s.enabled = false then s else s.goto i (.find r)
  | .gc => if s.enabled = false then s else s.goto i (.gcNext 0)
  | .store val =>
      if val = 0 then { s with enabled := false }.goto i .clearLock
      else if val = 1 then { s with enabled := true }
      else s

/-- The next step of a thread. -/
def ProcStats.turn (s : ProcStats) (i : Nat) (ok : Bool) : StatsPc → Option ProcStats
  | .idle => none
  | .find r =>
      match s.xa.load r.pid with
      | some entry => some (s.goto i (.update r entry))
      | none => some (s.goto i (.allocCheck r))
  | .allocCheck r =>
      if procStatsMaxEntries ≤ s.count then some (s.goto i .idle)
      else some (s.goto i (.allocNew r))
  | .allocNew r =>
      if ok = false then some (s.goto i .idle)
      else
        some ({ s with
          objs := Function.update s.objs s.next (.new r.pid r.uid)
          next := s.next + 1 }.goto i (.allocLock r s.next))
  | .allocLock r entry => s.spinLock i (.allocLoad r entry)
  | .allocLoad r entry =>
      match s.xa.load r.pid with
      | some _ => some (s.goto i (.allocUnlock r entry .found))
      | none => some (s.goto i (.allocCount r entry))
  | .allocCount r entry =>
      if procStatsMaxEntries ≤ s.count then some (s.goto i (.allocUnlock r entry .full))
      else some (s.goto i (.allocStore r entry))
  | .allocStore r entry =>
      some ({ s with xa := if ok then s.xa.store r.pid entry else s.xa }.goto i
        (.allocInc r entry))
  | .allocInc r entry =>
      some ({ s with count := s.count + 1 }.goto i (.allocUnlock r entry .stored))
  | .allocUnlock r entry .stored => some (s.spinUnlock i (.update r entry))
  | .allocUnlock r entry .found => some (s.spinUnlock i (.allocFree r entry true))
  | .allocUnlock r entry .full => some (s.spinUnlock i (.allocFree r entry false))
  | .allocFree r entry again => some (s.kfree entry i (if again then .allocAgain r else .idle))
  | .allocAgain r =>
      match s.xa.load r.pid with
      | some entry => some (s.goto i (.update r entry))
      | none => some (s.goto i .idle)
  | .update r entry =>
      some ({ s with objs := Function.update s.objs entry ((s.objs entry).record r.event) }.goto i
        .idle)
  | .gcNext cursor =>
      match s.xa.findFrom cursor with
      | some (pid, entry) => some (s.goto i (.gcCheck pid entry))
      | none => some (s.goto i .idle)
  | .gcCheck pid entry =>
      if ok then some (s.goto i (.gcNext (pid + 1))) else some (s.goto i (.gcLock pid entry))
  | .gcLock pid entry => s.spinLock i (.gcErase pid entry)
  | .gcErase pid entry => some ({ s with xa := s.xa.erase pid }.goto i (.gcDec pid entry))
  | .gcDec pid entry => some ({ s with count := s.count - 1 }.goto i (.gcUnlock pid entry))
  | .gcUnlock pid entry => some (s.spinUnlock i (.gcFree pid entry))
  | .gcFree pid entry => some (s.kfree entry i (.gcNext (pid + 1)))
  | .clearLock => s.spinLock i (.clearNext 0)
  | .clearNext cursor =>
      match s.xa.findFrom cursor with
      | some (pid, entry) => some ({ s with xa := s.xa.erase pid }.goto i (.clearFree pid entry))
      | none => some (s.goto i .clearCount)
  | .clearFree pid entry => some (s.kfree entry i (.clearNext (pid + 1)))
  | .clearCount => some ({ s with count := 0 }.goto i .clearUnlock)
  | .clearUnlock => some (s.spinUnlock i .idle)

def statsStep (s : ProcStats) : StatsAct → Option ProcStats
  | .call i c =>
      match s.pc i with
      | .idle => some (s.enter i c)
      | _ => none
  | .step i ok => s.turn i ok (s.pc i)

end MiniMem
