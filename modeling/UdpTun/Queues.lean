import UdpTun.Lib.OrdMap
import UdpTun.Lib.TextStream
import UdpTun.Halt
import UdpTun.Payloads
import Mathlib.Data.Char
import Mathlib.Data.List.Lex
import Mathlib.Data.Nat.Basic

/-!
# Payload queues

`PayloadQueue` of `queues.cc` keeps payloads in memory as long as they fit, and otherwise in spill
files of a directory of its own, named after the time at which they were begun.

* `PayloadQueue.push` adds a payload in memory, or through the stream `out` to the latest file.
* `PayloadQueue.peek` gives the payload at the head, loading the oldest file if there is none in
  memory; `consume` takes it away, and `poke` tells the user that there is one.
* `PayloadQueue.discardFile` deletes the oldest file, when the quota manager asks for it.

The directory is part of the state.  What has been written to `out` but not yet to the file is kept
apart from what the file holds (`OutFile.buffered`), and `PayloadQueue.flush` moves it, at moments
that the stream chooses.  What is still there once the file has been deleted goes nowhere.

The functions return the calls they make of the user and of the quota manager, in order.  In `push`,
`poke` and `discardFile` these come last, so that what such a call does to the queue in turn is the
same as if it came next.
-/

set_option autoImplicit false

namespace UdpTun

open TextStream (isSpace)

/-! ## File names

The name of a spill file is made from its key, and its key is read from its name when the daemon
starts again.  `std::stoll` also reads names that were not made so. -/

/-- A file name, as a component of a path. -/
abbrev FileName := List Char

/-- The suffix of a spill file. -/
def queueSuffix : List Char := ['.', 'q', 'u', 'e', 'u', 'e']

/-- `make_queue_file`. -/
def makeQueueFile (key : Nat) : FileName := Nat.toDigits 16 key ++ queueSuffix

theorem digitChar_inj : ∀ i < 16, ∀ j < 16, Nat.digitChar i = Nat.digitChar j → i = j := by decide

theorem toDigits_sixteen_inj {i j : Nat} (h : Nat.toDigits 16 i = Nat.toDigits 16 j) : i = j := by
  induction i using Nat.strong_induction_on generalizing j with
  | _ i ih =>
    rw [Nat.toDigits_eq_if (by decide), Nat.toDigits_eq_if (n := j) (by decide)] at h
    split at h <;> rename_i hi <;> split at h <;> rename_i hj
    · exact digitChar_inj i hi j hj (List.singleton_inj.mp h)
    · have := (List.append_inj' (show [] ++ [_] = _ ++ [_] from h) rfl).1
      exact absurd this.symm Nat.toDigits_ne_nil
    · have := (List.append_inj' (show _ ++ [_] = [] ++ [_] from h) rfl).1
      exact absurd this Nat.toDigits_ne_nil
    · obtain ⟨hdiv, hmod⟩ := List.append_inj' h rfl
      have hdiv := ih (i / 16) (by omega) hdiv
      have hmod := digitChar_inj _ (by omega) _ (by omega) (List.singleton_inj.mp hmod)
      omega

/-- Files of different keys have different names. -/
theorem makeQueueFile_inj {i j : Nat} (h : makeQueueFile i = makeQueueFile j) : i = j :=
  toDigits_sixteen_inj (List.append_cancel_right h)

/-- `path::stem` and `path::extension` of a file name: the part before the last dot and the part
from it on.  A dot in front does not count. -/
def splitExtension (fn : FileName) : List Char × List Char :=
  match fn.reverse.dropWhile (· ≠ '.') with
  | '.' :: c :: stem => ((c :: stem).reverse, fn.drop (stem.length + 1))
  | _ => (fn, [])

/-- The value of a hexadecimal digit. -/
def hexDigit (c : Char) : Option Nat :=
  if '0' ≤ c ∧ c ≤ '9' then some (c.toNat - '0'.toNat)
  else if 'a' ≤ c ∧ c ≤ 'f' then some (c.toNat - 'a'.toNat + 10)
  else if 'A' ≤ c ∧ c ≤ 'F' then some (c.toNat - 'A'.toNat + 10)
  else none

/-- Read hexadecimal digits on top of a value, up to the first character that is not one. -/
def hexDigits : Option Nat → List Char → Option Nat
  | v, [] => v
  | v, c :: cs =>
    match hexDigit c with
    | none => v
    | some d => hexDigits (some (v.getD 0 * 16 + d)) cs

/-- `std::stoll(s, nullptr, 16)`; `none` where it throws. -/
def stoll (s : List Char) : Option Int :=
  let s := s.dropWhile isSpace
  let neg := s.head? = some '-'
  let s := if neg ∨ s.head? = some '+' then s.tail else s
  let s := match s with
    | '0' :: x :: d :: rest =>
      if (x = 'x' ∨ x = 'X') ∧ (hexDigit d).isSome then d :: rest else '0' :: x :: d :: rest
    | s => s
  match hexDigits none s with
  | none => none
  | some v =>
    if neg then if v ≤ 2 ^ 63 then some (-v) else none
    else if v < 2 ^ 63 then some v else none

/-! ## The queue

The directory and the buffer of the stream are part of the state, so that a payload that has been
pushed is always somewhere in it. -/

/-- `out`, while it is open. -/
structure OutFile where
  file : FileName
  /-- Written, but not yet to the file. -/
  buffered : List UInt8
  deriving DecidableEq

/-- `PayloadQueue`. -/
structure PayloadQueue where
  /-- `max_mem`. -/
  maxMem : Nat
  /-- `sz_mem`. -/
  szMem : Nat
  /-- The payloads in memory. -/
  queue : List Payload
  /-- `queue_fns`. -/
  queueFns : OrdMap Nat FileName
  /-- `sz_out`. -/
  szOut : Nat
  out : Option OutFile
  disappointed : Bool
  /-- The files of the directory, and what they hold. -/
  files : OrdMap FileName (List UInt8)

namespace PayloadQueue

/-- What a queue asks of others. -/
inductive Call
  /-- The user is told that there is something in the queue. -/
  | user
  /-- `quota.increase`. -/
  | increase (sz : Nat)
  /-- `quota.decrease`. -/
  | decrease (sz : Nat)
  /-- `quota.oldest`. -/
  | oldest (key : Nat)
  deriving DecidableEq

/-! ### Construction

The files are met in an order that the file system chooses, which is an argument. -/

/-- The loop of the constructor over the files found in the directory: `queue_fns`, the total size
and `oldest_key`. -/
def scanDirectory (files : OrdMap FileName (List UInt8)) :
    List FileName → OrdMap Nat FileName → Nat → Nat → Except Halt (OrdMap Nat FileName × Nat × Nat)
  | [], fns, tsz, oldestKey => .ok (fns, tsz, oldestKey)
  | fn :: rest, fns, tsz, oldestKey =>
    if (splitExtension fn).2 ≠ queueSuffix then scanDirectory files rest fns tsz oldestKey
    else
      match stoll (splitExtension fn).1 with
      | none => .error (.exception (.library "std::stoll"))
      | some k =>
        let key := (k % 2 ^ 64).toNat
        let oldestKey := if oldestKey ≠ 0 ∨ key < oldestKey then key else oldestKey
        let fsz := ((files.get? fn).getD []).length
        scanDirectory files rest (fns.insert key fn) (tsz + fsz) oldestKey

/-- A queue with nothing in memory. -/
def fresh (maxMem : Nat) (queueFns : OrdMap Nat FileName)
    (files : OrdMap FileName (List UInt8)) : PayloadQueue :=
  { maxMem, szMem := 0, queue := [], queueFns, szOut := 0, out := none, disappointed := true,
    files }

/-- The constructor, on a directory whose files are met in some order. -/
def create (maxMem : Nat) (files : OrdMap FileName (List UInt8)) (listing : List FileName) :
    Except Halt (PayloadQueue × List Call) :=
  (scanDirectory files listing .empty 0 0).map fun r ↦
    (fresh maxMem r.1 files, [.increase r.2.1, .oldest r.2.2])

/-- A listing of the directory, in any order. -/
def Lists (listing : List FileName) (files : OrdMap FileName (List UInt8)) : Prop :=
  listing.Perm (files.entries.map Prod.fst)

/-! ### The output stream

The stream moves its bytes to the file when it likes, and it does not notice if the file is not
there any more. -/

/-- The stream moves the first `n` bytes of its buffer to the file, if that is still there. -/
def flush (q : PayloadQueue) (n : Nat) : PayloadQueue :=
  match q.out with
  | none => q
  | some o =>
    { q with
      out := some { o with buffered := o.buffered.drop n }
      files := match q.files.get? o.file with
        | none => q.files
        | some bytes => q.files.insert o.file (bytes ++ o.buffered.take n) }

/-- `out.close()`, which moves all of it. -/
def closeOut (q : PayloadQueue) : PayloadQueue :=
  match q.out with
  | none => q
  | some o => { q.flush o.buffered.length with out := none }

/-- `out.write`. -/
def write (q : PayloadQueue) (bytes : List UInt8) : PayloadQueue :=
  { q with out := q.out.map fun o ↦ { o with buffered := o.buffered ++ bytes } }

/-! ### Pushing

There are three branches: memory, a new file, and the file that is open.  A payload goes to memory
only if there are no files, so that it does not come before what is in them. -/

/-- `queue_fns.empty() && sz_mem + len < max_mem`. -/
def fitsMemory (q : PayloadQueue) (len : Nat) : Bool :=
  q.queueFns.entries.isEmpty && decide (q.szMem + len < q.maxMem)

/-- `!out.is_open() || sz_out + (2 + len) >= max_mem`. -/
def needsFile (q : PayloadQueue) (len : Nat) : Bool :=
  q.out.isNone || decide (q.szOut + (2 + len) ≥ q.maxMem)

/-- Begin a file at time `now`; one of that name would be truncated. -/
def newFile (q : PayloadQueue) (now : Nat) : PayloadQueue :=
  let nf := makeQueueFile now
  let q := { q with queueFns := q.queueFns.insert now nf }.closeOut
  { q with files := q.files.insert nf [], out := some ⟨nf, []⟩, szOut := 0 }

/-- The first branch of `push`. -/
def pushMemory (q : PayloadQueue) (arr : List (List UInt8)) : PayloadQueue × List Call :=
  let wasEmpty := q.queue.isEmpty
  let q := { q with queue := q.queue ++ [arr.flatten], szMem := q.szMem + sumLengths arr }
  if wasEmpty && q.disappointed then ({ q with disappointed := false }, [.user]) else (q, [])

/-- The end of `push`, on the file that is open. -/
def appendFile (q : PayloadQueue) (arr : List (List UInt8)) : PayloadQueue × List Call :=
  let len := sumLengths arr
  let q := q.write (Payload.save arr.flatten)
  let q := { q with szOut := q.szOut + (len + 2) }
  (if q.szOut ≥ q.maxMem then q.closeOut else q, [.increase (len + 2)])

/-- `push`, where `now_index()` would read `now`. -/
def push (q : PayloadQueue) (arr : List (List UInt8)) (now : Nat) : PayloadQueue × List Call :=
  if q.fitsMemory (sumLengths arr) then q.pushMemory arr
  else if q.needsFile (sumLengths arr) then (q.newFile now).appendFile arr
  else q.appendFile arr

/-! ### Reading

Nothing is read from a file before memory is empty, and then a whole file is read at once.  A file
without a whole record is passed over, and deleted with the others. -/

/-- One turn of `load_head_file`: the oldest file is read into memory and deleted.  Returns the size
of what was read as well. -/
def loadFile (q : PayloadQueue) (key : Nat) (ofn : FileName) : PayloadQueue × Nat :=
  let r := Payload.loadAll ((q.files.get? ofn).getD [])
  ({ q with
      queue := q.queue ++ r.1
      szMem := q.szMem + (r.1.map List.length).sum
      files := q.files.erase ofn
      queueFns := q.queueFns.erase key }, r.2)

/-- `load_head_file`, the list being the entries of `queue_fns`. -/
def loadHeadFile : List (Nat × FileName) → PayloadQueue → Bool × PayloadQueue × List Call
  | [], q => (false, q, [])
  | (key, ofn) :: rest, q =>
    let r := q.loadFile key ofn
    if r.1.queue.isEmpty then
      let next := loadHeadFile rest r.1
      (next.1, next.2.1, .decrease r.2 :: next.2.2)
    else (true, r.1, [.decrease r.2])

/-- `peek`: the payload at the head, if any. -/
def peek (q : PayloadQueue) : Option Payload × PayloadQueue × List Call :=
  if q.queue.isEmpty then
    let r := loadHeadFile q.queueFns.entries q
    if r.1 then (r.2.1.queue.head?, r.2.1, r.2.2)
    else (none, { r.2.1 with disappointed := true }, r.2.2)
  else (q.queue.head?, q, [])

/-- `poke`. -/
def poke (q : PayloadQueue) : PayloadQueue × List Call :=
  let r := q.peek
  if r.1.isSome then (r.2.1, r.2.2 ++ [.user]) else r.2

/-- `consume`: the payload moved out, if there is one in memory. -/
def consume (q : PayloadQueue) : Option Payload × PayloadQueue :=
  match q.queue with
  | [] => (none, q)
  | pl :: rest => (some pl, { q with szMem := q.szMem - pl.length, queue := rest })

/-- `unget`.  An argument that holds no payload is ignored. -/
def unget (q : PayloadQueue) : Option Payload → PayloadQueue
  | none => q
  | some pl => { q with szMem := q.szMem + pl.length, queue := pl :: q.queue }

/-- `discard_file`.  The size of a file that is not there cannot be had. -/
def discardFile (q : PayloadQueue) : Except Halt (PayloadQueue × List Call) :=
  match q.queueFns.first? with
  | none => .ok (q, [])
  | some (key, ofn) =>
    match q.files.get? ofn with
    | none => .error (.exception (.library "std::filesystem::file_size"))
    | some bytes =>
      .ok ({ q with files := q.files.erase ofn, queueFns := q.queueFns.erase key },
        [.decrease bytes.length])

/-! ### Destruction

What is in memory goes to a file with a key that is below all others, since it is the oldest.  Then
the quota manager is told to forget the sizes of all files. -/

/-- The key of the file that the destructor begins, where `now_index()` would read `now`. -/
def spillKey (q : PayloadQueue) (now : Nat) : Nat :=
  let first := match q.queueFns.first? with
    | none => now
    | some p => p.1
  (first + (2 ^ 64 - 1)) % 2 ^ 64

/-- The first half of the destructor: what is in memory goes to a file of its own. -/
def spill (q : PayloadQueue) (now : Nat) : PayloadQueue :=
  if q.queue.isEmpty then q
  else
    let key := q.spillKey now
    let nf := makeQueueFile key
    let q := q.closeOut
    let q := { q with files := q.files.insert nf [], out := some ⟨nf, []⟩ }
    let q := (q.write (q.queue.flatMap Payload.save)).closeOut
    { q with queueFns := q.queueFns.insert key nf }

/-- The sizes of the files of `queue_fns`, added up; they cannot be had if one of the files is not
there. -/
def sizeOfFiles (q : PayloadQueue) : List (Nat × FileName) → Option Nat
  | [] => some 0
  | (_, fn) :: rest =>
    match q.files.get? fn with
    | none => none
    | some bytes => (q.sizeOfFiles rest).map (bytes.length + ·)

/-- The destructor: the directory it leaves behind, and the size by which the quota manager's
account is decreased before the user is forgotten.  `out` is closed when it is destroyed in turn. -/
def destroy (q : PayloadQueue) (now : Nat) : Except Halt (OrdMap FileName (List UInt8) × Nat) :=
  let q := q.spill now
  match q.sizeOfFiles q.queueFns.entries with
  | none => .error (.exception (.library "std::filesystem::file_size"))
  | some sum => .ok (q.closeOut.files, sum)

/-! ### Use -/

/-- What can be done to a queue, and what its stream and its quota manager can do. -/
inductive Use
  | push (arr : List (List UInt8)) (now : Nat)
  | peek
  | consume
  | unget (pl : Option Payload)
  | poke
  | flush (n : Nat)
  | discard

/-- One operation, with the calls it makes. -/
def perform (q : PayloadQueue) : Use → Except Halt (PayloadQueue × List Call)
  | .push arr now => .ok (q.push arr now)
  | .peek => .ok q.peek.2
  | .consume => .ok (q.consume.2, [])
  | .unget pl => .ok (q.unget pl, [])
  | .poke => .ok q.poke
  | .flush n => .ok (q.flush n, [])
  | .discard => q.discardFile

/-! ## What the stream does

Moving bytes from the buffer to the file changes neither of the two together.  So what a file comes
to hold is one function of the queue, and the stream is left out of most of what follows. -/

/-- What `out` has not moved to a file yet. -/
def bufferedFor (q : PayloadQueue) (fn : FileName) : List UInt8 :=
  match q.out with
  | none => []
  | some o => if o.file = fn then o.buffered else []

/-- What a file holds, with what `out` has yet to move to it. -/
def fileBytes (q : PayloadQueue) (fn : FileName) : List UInt8 :=
  (q.files.get? fn).getD [] ++ q.bufferedFor fn

@[simp] theorem flush_queueFns (q : PayloadQueue) (n : Nat) :
    (q.flush n).queueFns = q.queueFns := by
  rw [flush]
  split <;> rfl

@[simp] theorem flush_queue (q : PayloadQueue) (n : Nat) : (q.flush n).queue = q.queue := by
  rw [flush]
  split <;> rfl

theorem flush_out (q : PayloadQueue) (n : Nat) :
    (q.flush n).out = q.out.map fun o ↦ { o with buffered := o.buffered.drop n } := by
  rw [flush]
  split <;> rename_i ho <;> rw [ho] <;> rfl

/-- A file gets what the buffer loses. -/
theorem flush_get? (q : PayloadQueue) (n : Nat) (fn : FileName) :
    (q.flush n).files.get? fn = (q.files.get? fn).map (· ++ (q.bufferedFor fn).take n) := by
  rw [flush, bufferedFor]
  cases q.out with
  | none => simp
  | some o =>
    dsimp only
    by_cases hfile : o.file = fn
    · subst hfile
      cases hget : q.files.get? o.file <;> simp [hget]
    · cases hget : q.files.get? o.file with
      | none => simp [hfile]
      | some bytes => simp [hfile, OrdMap.get?_insert_of_ne _ (Ne.symm hfile)]

theorem flush_bufferedFor (q : PayloadQueue) (n : Nat) (fn : FileName) :
    (q.flush n).bufferedFor fn = (q.bufferedFor fn).drop n := by
  rw [bufferedFor, bufferedFor, flush_out]
  cases q.out with
  | none => simp
  | some o => by_cases hfile : o.file = fn <;> simp [hfile]

@[simp] theorem closeOut_out (q : PayloadQueue) : q.closeOut.out = none := by
  rw [closeOut]
  split
  · assumption
  · rfl

@[simp] theorem closeOut_queueFns (q : PayloadQueue) : q.closeOut.queueFns = q.queueFns := by
  rw [closeOut]
  split
  · rfl
  · exact flush_queueFns q _

@[simp] theorem closeOut_queue (q : PayloadQueue) : q.closeOut.queue = q.queue := by
  rw [closeOut]
  split
  · rfl
  · exact flush_queue q _

@[simp] theorem closeOut_bufferedFor (q : PayloadQueue) (fn : FileName) :
    q.closeOut.bufferedFor fn = [] := by
  rw [bufferedFor, closeOut_out]

/-- On closing, a file gets all that was kept back for it. -/
theorem closeOut_get? (q : PayloadQueue) (fn : FileName) :
    q.closeOut.files.get? fn = (q.files.get? fn).map (· ++ q.bufferedFor fn) := by
  rw [closeOut]
  cases ho : q.out with
  | none => simp [bufferedFor, ho]
  | some o =>
    show (q.flush o.buffered.length).files.get? fn = _
    rw [flush_get?, bufferedFor, ho]
    dsimp only
    split <;> simp

/-- Moving bytes from the buffer to a file that is there changes nothing about what it holds. -/
theorem fileBytes_flush {q : PayloadQueue} {fn : FileName} (h : q.files.get? fn ≠ none) (n : Nat) :
    (q.flush n).fileBytes fn = q.fileBytes fn := by
  obtain ⟨bytes, hbytes⟩ := Option.ne_none_iff_exists'.mp h
  simp [fileBytes, flush_get?, hbytes, flush_bufferedFor]

theorem fileBytes_closeOut {q : PayloadQueue} {fn : FileName} (h : q.files.get? fn ≠ none) :
    q.closeOut.fileBytes fn = q.fileBytes fn := by
  obtain ⟨bytes, hbytes⟩ := Option.ne_none_iff_exists'.mp h
  simp [fileBytes, closeOut_get?, hbytes]

@[simp] theorem flush_szOut (q : PayloadQueue) (n : Nat) : (q.flush n).szOut = q.szOut := by
  rw [flush]
  split <;> rfl

@[simp] theorem closeOut_szOut (q : PayloadQueue) : q.closeOut.szOut = q.szOut := by
  rw [closeOut]
  split
  · rfl
  · exact flush_szOut q _

/-! ## What a new file and an appended payload change

These two steps are what there is to a push that does not stay in memory. -/

section newFile

variable (q : PayloadQueue) (now : Nat)

@[simp] theorem newFile_queue : (q.newFile now).queue = q.queue :=
  closeOut_queue { q with queueFns := q.queueFns.insert now (makeQueueFile now) }

@[simp] theorem newFile_out : (q.newFile now).out = some ⟨makeQueueFile now, []⟩ := rfl

@[simp] theorem newFile_queueFns :
    (q.newFile now).queueFns = q.queueFns.insert now (makeQueueFile now) :=
  closeOut_queueFns { q with queueFns := q.queueFns.insert now (makeQueueFile now) }

theorem newFile_get? (fn : FileName) : (q.newFile now).files.get? fn =
    if fn = makeQueueFile now then some []
    else (q.files.get? fn).map (· ++ q.bufferedFor fn) := by
  have hclose := closeOut_get? { q with queueFns := q.queueFns.insert now (makeQueueFile now) } fn
  by_cases hfn : fn = makeQueueFile now
  · rw [if_pos hfn, hfn]
    exact OrdMap.get?_insert_self ..
  · rw [if_neg hfn]
    exact (OrdMap.get?_insert_of_ne _ hfn _).trans hclose

end newFile

section appendFile

variable (q : PayloadQueue) (arr : List (List UInt8))

@[simp] theorem appendFile_queue : (q.appendFile arr).1.queue = q.queue := by
  rw [appendFile]
  dsimp only
  split
  · exact closeOut_queue _
  · rfl

@[simp] theorem appendFile_queueFns : (q.appendFile arr).1.queueFns = q.queueFns := by
  rw [appendFile]
  dsimp only
  split
  · exact closeOut_queueFns _
  · rfl

end appendFile

section pushMemory

variable (q : PayloadQueue) (arr : List (List UInt8))

@[simp] theorem pushMemory_queue : (q.pushMemory arr).1.queue = q.queue ++ [arr.flatten] := by
  rw [pushMemory]
  dsimp only
  split <;> rfl

@[simp] theorem pushMemory_queueFns : (q.pushMemory arr).1.queueFns = q.queueFns := by
  rw [pushMemory]
  dsimp only
  split <;> rfl

@[simp] theorem pushMemory_files : (q.pushMemory arr).1.files = q.files := by
  rw [pushMemory]
  dsimp only
  split <;> rfl

@[simp] theorem pushMemory_out : (q.pushMemory arr).1.out = q.out := by
  rw [pushMemory]
  dsimp only
  split <;> rfl

@[simp] theorem pushMemory_szOut : (q.pushMemory arr).1.szOut = q.szOut := by
  rw [pushMemory]
  dsimp only
  split <;> rfl

end pushMemory

/-- A push that does not stay in memory adds a file, or adds to one, and says how much. -/
theorem push_of_not_fits {q : PayloadQueue} {arr : List (List UInt8)}
    (h : q.fitsMemory (sumLengths arr) = false) (now : Nat) :
    (q.push arr now).2 = [.increase (sumLengths arr + 2)] ∧
      (q.push arr now).1.queueFns =
        if q.needsFile (sumLengths arr) then q.queueFns.insert now (makeQueueFile now)
        else q.queueFns := by
  rw [push, h, if_neg Bool.false_ne_true]
  split
  · exact ⟨rfl, by simp⟩
  · exact ⟨rfl, by simp⟩

/-- Poking is peeking, as far as the queue is concerned. -/
theorem poke_queue (q : PayloadQueue) : q.poke.1 = q.peek.2.1 := by
  rw [poke]
  split <;> rfl

/-- **Discarding**: there is nothing to discard, or the oldest file goes. -/
theorem discardFile_cases {q r : PayloadQueue} {calls : List Call}
    (h : q.discardFile = .ok (r, calls)) :
    (q.queueFns.first? = none ∧ r = q ∧ calls = []) ∨
      ∃ key fn bytes, q.queueFns.first? = some (key, fn) ∧ q.files.get? fn = some bytes ∧
        r = { q with files := q.files.erase fn, queueFns := q.queueFns.erase key } ∧
        calls = [.decrease bytes.length] := by
  unfold discardFile at h
  split at h
  · obtain ⟨rfl, rfl⟩ := Prod.mk.inj (Except.ok.inj h)
    exact .inl ⟨‹_›, rfl, rfl⟩
  · split at h
    · cases h
    · obtain ⟨rfl, rfl⟩ := Prod.mk.inj (Except.ok.inj h)
      exact .inr ⟨_, _, _, ‹_›, ‹_›, rfl, rfl⟩

/-! ## What operations keep

What holds of a queue and is kept by the parts of an operation is kept by the operation. -/

section Rules

variable {P : PayloadQueue → Prop} {q : PayloadQueue}

theorem appendFile_rule {arr : List (List UInt8)}
    (hwrite : P { q.write (Payload.save arr.flatten) with
      szOut := q.szOut + (sumLengths arr + 2) })
    (hclose : ∀ q, P q → P q.closeOut) : P (q.appendFile arr).1 := by
  rw [appendFile]
  dsimp only
  split
  · exact hclose _ hwrite
  · exact hwrite

theorem push_rule {arr : List (List UInt8)} {now : Nat} (hmemory : P (q.pushMemory arr).1)
    (hnew : P (q.newFile now)) (happend : ∀ q, P q → P (q.appendFile arr).1) (h : P q) :
    P (q.push arr now).1 := by
  rw [push]
  split
  · exact hmemory
  · split
    · exact happend _ hnew
    · exact happend _ h

theorem loadHeadFile_rule
    (hload : ∀ q key fn, q.queueFns.get? key = some fn → q.queue = [] → P q →
      P (q.loadFile key fn).1)
    {es : List (Nat × FileName)} (hes : q.queueFns.entries = es) (hqueue : q.queue = [])
    (h : P q) : P (loadHeadFile es q).2.1 := by
  induction es generalizing q with
  | nil => exact h
  | cons p rest ih =>
    have hentry : q.queueFns.get? p.1 = some p.2 := OrdMap.mem_entries.mp (by simp [hes])
    rw [loadHeadFile]
    dsimp only
    split
    · exact ih (OrdMap.entries_erase_first hes) (List.isEmpty_iff.mp ‹_›)
        (hload _ _ _ hentry hqueue h)
    · exact hload _ _ _ hentry hqueue h

/-- Files are loaded while there is nothing in memory. -/
theorem peek_rule
    (hload : ∀ q key fn, q.queueFns.get? key = some fn → q.queue = [] → P q →
      P (q.loadFile key fn).1)
    (hnote : ∀ q, P q → P { q with disappointed := true }) (h : P q) : P q.peek.2.1 := by
  rw [peek]
  dsimp only
  split
  · have hhead := loadHeadFile_rule hload rfl (List.isEmpty_iff.mp ‹_›) h
    split
    · exact hhead
    · exact hnote _ hhead
  · exact h

end Rules

end PayloadQueue
end UdpTun
