import UdpTun.Lib.OrdMap
import UdpTun.Yaml

/-!
# Logging

A `Logger` writes through a `LoggingContext`, which has a level and a stream.  The contexts form a
tree that is made after the `logging` section of the configuration; a logger goes down it by the
parts of its name, as far as there are contexts.  It keeps a pointer to the context it has found,
and looks again when the `serial` of `Logging` has become greater than its own.

The streams are those of `out_table`, where each is under its path, and `std::cerr`.

A pointer to a context is a `Pointer`: where in the tree the context was, and an identity that no
other context has ever had.  A pointer to a stream is its path and such an identity.  So an object
that has been destroyed can be told from one that is in its place.  To follow a pointer to an object
that is gone is undefined.

What the source takes from libraries is in `Conv` and `Files`.  The text that is written is left
out.
-/

set_option autoImplicit false

namespace UdpTun

/-- `Logger::level_t`. -/
abbrev Level := Nat

namespace Level

def silent : Level := 800
def critical : Level := 700
def error : Level := 600
def warn : Level := 500
def info : Level := 400
def debug : Level := 300
def trace : Level := 200
def detail : Level := 100
def all : Level := 0

/-- `level_names`. -/
def names : List (String × Level) :=
  [("silent", silent), ("critical", critical), ("error", error), ("warn", warn), ("info", info),
    ("debug", debug), ("trace", trace), ("detail", detail), ("all", all)]

/-- `parse_level`. -/
def parse (txt : String) : Option Level :=
  names.lookup (String.ofList (txt.toList.map Char.toLower))

end Level

/-- What `as` makes of a node; where it is `none`, then `as` throws. -/
structure Conv where
  /-- `as<std::string>`. -/
  asString : Node → Option String
  /-- `as<level_t>`. -/
  asLevel : Node → Option Level

/-- What there is to know of files while a configuration is applied. -/
structure Files (P : Type) where
  /-- `expand_filename`. -/
  expand : String → List P
  /-- Whether the file can be opened. -/
  opens : P → Bool

/-- `LoggingContext::out`. -/
inductive Out (P : Type)
  | cerr
  | file (path : P) (id : Nat)
  deriving DecidableEq

/-- `LoggingContext`. -/
inductive LoggingContext (P : Type)
  | mk (id : Nat) (level : Level) (out : Out P) (subs : List (String × LoggingContext P))

/-- A `std::ofstream` in `out_table`. -/
structure LogStream where
  id : Nat
  isOpen : Bool
  deriving DecidableEq

/-- `out_table`, and the identity of the next object. -/
structure OutTable (P : Type) [LinearOrder P] where
  streams : OrdMap P LogStream
  next : Nat

/-- `Logging`. -/
structure Logging (P : Type) [LinearOrder P] where
  serial : Nat
  outTable : OutTable P
  ctxRoot : LoggingContext P

/-- Where a context was, and its identity. -/
structure Pointer where
  path : List String
  id : Nat
  deriving DecidableEq

/-- `Logger`. -/
structure Logger where
  name : List String
  /-- There is no value before the first look-up. -/
  ctx : Option Pointer
  serial : Nat
  comp : String
  deriving DecidableEq

variable {P : Type}

namespace LoggingContext

def id : LoggingContext P → Nat
  | mk id _ _ _ => id

def level : LoggingContext P → Level
  | mk _ level _ _ => level

def out : LoggingContext P → Out P
  | mk _ _ out _ => out

/-- The constructor. -/
def create (id : Nat) : LoggingContext P := mk id .info .cerr []

/-- `subs.find`. -/
def sub (c : LoggingContext P) (s : String) : Option (LoggingContext P) :=
  match c with
  | mk _ _ _ subs => subs.lookup s

def withLevel (c : LoggingContext P) (level : Level) : LoggingContext P :=
  match c with
  | mk id _ out subs => mk id level out subs

def withOut (c : LoggingContext P) (out : Out P) : LoggingContext P :=
  match c with
  | mk id level _ subs => mk id level out subs

/-- `subs.clear()`. -/
def clearSubs (c : LoggingContext P) : LoggingContext P :=
  match c with
  | mk id level out _ => mk id level out []

/-- What is at a key of `subs` becomes another. -/
def withSub (c : LoggingContext P) (s : String) (c' : LoggingContext P) : LoggingContext P :=
  match c with
  | mk id level out subs => mk id level out ((s, c') :: subs.filter (·.1 ≠ s))

/-- The context at a path. -/
def at? : LoggingContext P → List String → Option (LoggingContext P)
  | c, [] => some c
  | c, s :: path => (c.sub s).bind fun c' ↦ c'.at? path

/-- `Logging::find`: how far it gets, and the context there. -/
def find : LoggingContext P → List String → List String × LoggingContext P
  | c, [] => ([], c)
  | c, s :: parts =>
    match c.sub s with
    | none => ([], c)
    | some c' => (s :: (c'.find parts).1, (c'.find parts).2)

end LoggingContext

variable [LinearOrder P]

/-! ## Configuring

`set` goes down a section of the configuration and may throw at any point; what it has done by then
stays.  So each part of it returns what it leaves behind, with the exception, if there is one. -/

/-- `operator []` with a string, on a node that is only read. -/
def Node.get (n : Node) (k : String) : Except Halt Node :=
  match n with
  | .scalar _ => .error (.exception (.library "YAML::Node::operator[]"))
  | .map _ pairs => .ok (Node.find k pairs)
  | _ => .ok .undefined

namespace OutTable

/-- `out_table.clear()`. -/
def clear (t : OutTable P) : OutTable P := { t with streams := .empty }

/-- `out_table[fp]`, which is opened if it is not open. -/
def openAt (files : Files P) (t : OutTable P) (fp : P) : Nat × OutTable P :=
  match t.streams.get? fp with
  | none => (t.next, ⟨t.streams.insert fp ⟨t.next, files.opens fp⟩, t.next + 1⟩)
  | some s =>
    if s.isOpen then (s.id, t)
    else (s.id, { t with streams := t.streams.insert fp ⟨s.id, files.opens fp⟩ })

end OutTable

/-- What `as` throws. -/
def noConversion : Halt := .exception (.library "YAML::Node::as")

/-- What a part of `LoggingContext::set` leaves behind, whether it returns or throws. -/
structure Setting (P : Type) [LinearOrder P] where
  ctx : LoggingContext P
  outTable : OutTable P
  thrown : Option Halt

/-- What comes next, unless something has been thrown. -/
def Setting.andThen (s : Setting P) (f : LoggingContext P → OutTable P → Setting P) : Setting P :=
  match s.thrown with
  | some _ => s
  | none => f s.ctx s.outTable

namespace LoggingContext

/-- `set`, as far as `out`.  Of the parent it takes the level and the stream. -/
def setOut (conv : Conv) (files : Files P) (cfg : Node) (par : Option (Level × Out P))
    (c : LoggingContext P) (t : OutTable P) : Setting P :=
  match cfg.get "file" with
  | .error x => ⟨c, t, some x⟩
  | .ok fileRoot =>
    if fileRoot.isDefined then
      match conv.asString fileRoot with
      | none => ⟨c, t, some noConversion⟩
      | some fn =>
        match files.expand fn with
        | [] => ⟨c, t, some .undefined⟩
        | fp :: _ => ⟨c.withOut (.file fp (t.openAt files fp).1), (t.openAt files fp).2, none⟩
    else ⟨c.withOut (par.elim .cerr Prod.snd), t, none⟩

/-- `set`, as far as `level`. -/
def setLevel (conv : Conv) (cfg : Node) (par : Option (Level × Out P)) (c : LoggingContext P)
    (t : OutTable P) : Setting P :=
  match cfg.get "level" with
  | .error x => ⟨c, t, some x⟩
  | .ok levelRoot =>
    if levelRoot.isDefined then
      match conv.asString levelRoot with
      | none => ⟨c, t, some noConversion⟩
      | some sval =>
        match (Level.parse sval).or (conv.asLevel levelRoot) with
        | none => ⟨c, t, some noConversion⟩
        | some level => ⟨c.withLevel level, t, none⟩
    else ⟨c.withLevel (par.elim .info Prod.fst), t, none⟩

mutual

/-- `set`. -/
def set (conv : Conv) (files : Files P) :
    Node → Option (Level × Out P) → LoggingContext P → OutTable P → Setting P
  | .map defined pairs, par, c, t =>
    ((setOut conv files (.map defined pairs) par c t).andThen
      (setLevel conv (.map defined pairs) par)).andThen fun c t ↦
        setUnder conv files pairs c.clearSubs t
  | cfg, par, c, t =>
    ((setOut conv files cfg par c t).andThen (setLevel conv cfg par)).andThen fun c t ↦
      ⟨c.clearSubs, t, none⟩

/-- `set`, where it looks for `children`. -/
def setUnder (conv : Conv) (files : Files P) :
    List (String × Node) → LoggingContext P → OutTable P → Setting P
  | [], c, t => ⟨c, t, none⟩
  | (k, v) :: pairs, c, t =>
    if k = "children" then setChildren conv files v c t else setUnder conv files pairs c t

/-- `set`, for what it finds there.  The elements of a sequence have no keys. -/
def setChildren (conv : Conv) (files : Files P) :
    Node → LoggingContext P → OutTable P → Setting P
  | .map defined pairs, c, t => if defined then setAll conv files pairs c t else ⟨c, t, none⟩
  | .seq (_ :: _), c, t => ⟨c, t, some noConversion⟩
  | _, c, t => ⟨c, t, none⟩

/-- The loop over the children in `set`. -/
def setAll (conv : Conv) (files : Files P) :
    List (String × Node) → LoggingContext P → OutTable P → Setting P
  | [], c, t => ⟨c, t, none⟩
  | (k, v) :: pairs, c, t =>
    if v.isDefined then
      let r := match c.sub k with
        | some c' => (c', t)
        | none => (create t.next, { t with next := t.next + 1 })
      let s := set conv files v (some (c.level, c.out)) r.1 r.2
      (Setting.mk (c.withSub k s.ctx) s.outTable s.thrown).andThen (setAll conv files pairs)
    else setAll conv files pairs c t

end

end LoggingContext

namespace Logging

/-- The constructor. -/
def init : Logging P where
  serial := 1
  outTable := ⟨.empty, 1⟩
  ctxRoot := .create 0

/-- `configure_in`; the section is not defined if there is none.  It may throw. -/
def configureIn (conv : Conv) (files : Files P) (l : Logging P) (cfg : Node) :
    Logging P × Option Halt :=
  let t := l.outTable.clear
  if cfg.isDefined then
    let s := l.ctxRoot.set conv files cfg none t
    match s.thrown with
    | some x => ({ l with outTable := s.outTable, ctxRoot := s.ctx }, some x)
    | none => (⟨(l.serial + 1) % 2 ^ 32, s.outTable, s.ctx⟩, none)
  else ({ l with serial := (l.serial + 1) % 2 ^ 32, outTable := t }, none)

/-- A pointer is followed. -/
def deref (l : Logging P) (p : Pointer) : Except Halt (LoggingContext P) :=
  match l.ctxRoot.at? p.path with
  | some c => if c.id = p.id then .ok c else .error .undefined
  | none => .error .undefined

end Logging

/-! ## Loggers

A logger looks its context up only when it is used for the first time after a change.  What it keeps
until then may be a pointer to something that is gone. -/

/-- `split_name`, where `part` is what comes since the last dot. -/
def splitFrom (part : List Char) : List Char → List String
  | [] => [String.ofList part]
  | c :: name =>
    if c = '.' then
      if part = [] then splitFrom [] name else String.ofList part :: splitFrom [] name
    else splitFrom (part ++ [c]) name

/-- `split_name`. -/
def splitName (name : String) : List String := splitFrom [] name.toList

namespace Logger

/-- The constructor. -/
def create (name comp : String) : Logger where
  name := splitName name
  ctx := none
  serial := 0
  comp := comp

/-- `level`, up to the last line: the context is looked up again if need be. -/
def refresh (lg : Logger) (l : Logging P) : Logger :=
  if l.serial > lg.serial then
    let r := l.ctxRoot.find lg.name
    { lg with ctx := some ⟨r.1, r.2.id⟩, serial := l.serial }
  else lg

/-- The context that `level` and `report` go through.  A logger that has not looked anything up has
any pointer whatsoever. -/
def context (lg : Logger) (l : Logging P) : Except Halt (LoggingContext P) :=
  match (lg.refresh l).ctx with
  | none => .error .undefined
  | some p => l.deref p

/-- `report`, at a level: the stream that it writes to, if it does. -/
def report (lg : Logger) (l : Logging P) (lvl : Level) : Except Halt (Option (Out P)) := do
  let ctx ← lg.context l
  if lvl < ctx.level then .ok none
  else
    match ctx.out with
    | .cerr => .ok (some .cerr)
    | .file fp id =>
      if (l.outTable.streams.get? fp).map LogStream.id = some id then .ok (some (.file fp id))
      else .error .undefined

end Logger

/-! ## The process

Any logger may be used at any time, and any configuration may be applied. -/

namespace Logging

/-- Logging, and all loggers. -/
structure Process (P : Type) [LinearOrder P] where
  logging : Logging P
  loggers : List Logger

namespace Process

def init : Process P := ⟨.init, []⟩

inductive Act (P : Type)
  /-- `Logging::configure`, on a load, a reload or a rotation. -/
  | configure (files : Files P) (cfg : Node)
  | create (name comp : String)
  /-- A logger reports something. -/
  | report (i : Nat) (lvl : Level)

/-- What happens next.  `main` catches an exception, and reports it. -/
def step (conv : Conv) (w : Process P) : Act P → Except Halt (Process P)
  | .configure files cfg =>
    let r := w.logging.configureIn conv files cfg
    match r.2 with
    | none => .ok { w with logging := r.1 }
    | some (.exception _) => .ok { w with logging := r.1 }
    | some x => .error x
  | .create name comp => .ok { w with loggers := w.loggers ++ [.create name comp] }
  | .report i lvl =>
    match w.loggers[i]? with
    | none => .ok w
    | some lg =>
      (lg.report w.logging lvl).map fun _ ↦
        { w with loggers := w.loggers.set i (lg.refresh w.logging) }

end Process
end Logging

/-! ## Look-ups

What is found at the end of a way down the tree is at a path, and can be found there again. -/

namespace LoggingContext

variable {c c' : LoggingContext P}

omit [LinearOrder P] in
theorem lookup_filter (subs : List (String × LoggingContext P)) {s s' : String} (h : s' ≠ s) :
    (subs.filter (·.1 ≠ s)).lookup s' = subs.lookup s' := by
  induction subs with
  | nil => rfl
  | cons e subs ih =>
    obtain ⟨k, c⟩ := e
    by_cases hk : k = s
    · have hne : (s' == k) = false := by simpa [hk] using h
      rw [List.filter_cons_of_neg (by simp [hk]), ih, List.lookup_cons, hne]
    · rw [List.filter_cons_of_pos (by simp [hk]), List.lookup_cons, List.lookup_cons, ih]

omit [LinearOrder P] in
theorem sub_withSub (c c' : LoggingContext P) (s s' : String) :
    (c.withSub s c').sub s' = if s' = s then some c' else c.sub s' := by
  obtain ⟨id, level, out, subs⟩ := c
  rw [withSub, sub, sub, List.lookup_cons]
  by_cases hs : s' = s
  · simp [hs]
  · have hne : (s' == s) = false := by simpa using hs
    rw [if_neg hs, hne, lookup_filter subs hs]

omit [LinearOrder P] in
/-- What is found is there. -/
theorem at?_find (c : LoggingContext P) (parts : List String) :
    c.at? (c.find parts).1 = some (c.find parts).2 := by
  induction parts generalizing c with
  | nil => rfl
  | cons s parts ih =>
    rw [find]
    split
    · rfl
    · rename_i c' hsub
      rw [at?, hsub]
      exact ih c'

omit [LinearOrder P] in
theorem find_of_none {s : String} {parts : List String} (h : c.sub s = none) :
    c.find (s :: parts) = ([], c) := by
  rw [find, h]

omit [LinearOrder P] in
theorem find_of_some {s : String} {parts : List String} (h : c.sub s = some c') :
    c.find (s :: parts) = (s :: (c'.find parts).1, (c'.find parts).2) := by
  rw [find, h]

omit [LinearOrder P] in
theorem withSub_level (c c' : LoggingContext P) (k : String) :
    (c.withSub k c').level = c.level ∧ (c.withSub k c').out = c.out := by
  cases c
  exact ⟨rfl, rfl⟩

end LoggingContext

/-- A pointer to what is found is good. -/
theorem Logging.deref_find (l : Logging P) (parts : List String) :
    l.deref ⟨(l.ctxRoot.find parts).1, (l.ctxRoot.find parts).2.id⟩ =
      .ok (l.ctxRoot.find parts).2 := by
  rw [deref, LoggingContext.at?_find]
  exact if_pos rfl

end UdpTun
