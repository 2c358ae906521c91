import UdpTun.Lib.Run
import UdpTun.Logging
import Mathlib.Data.Nat.Basic

/-!
# Logging across reloads

Whenever a logger is used, it should report through the context for the longest part of its name
that is configured, with the level of the nearest configured ancestor that has one, to `std::cerr`
or to a stream that is open in `out_table` (`Reports`).  What is configured is what the last
`logging` section says.

`configure_in` closes all streams, and then leaves the tree as it is if there is no `logging`
section.  The contexts that had a file have pointers to streams that are gone.  This happens on a
reload and on a rotation: see `reload_without_section`.  A section that makes `set` throw leaves
things half done.  In runs whose steps are all `Clean` the loggers are fine: `loggers_report`.

* `Agrees` says what a tree of contexts is like that has been made after a section.
* `sets_of_proper` is the result about `set`, by induction on the section.
* `Held` is the invariant of a run, and `loggers_report` what follows for whoever uses a logger.
-/

set_option autoImplicit false

namespace UdpTun

/-! ## What a section says

The section is read here as a description, without regard to how it is applied: for each name the
part that is configured, and the level that is in force there. -/

namespace Node

/-- What is at the key `children`. -/
def childrenRoot (n : Node) : Node :=
  match n with
  | map _ pairs => find "children" pairs
  | _ => undefined

/-- The children, with their names. -/
def children (n : Node) : List (String × Node) :=
  match n.childrenRoot with
  | map true pairs => pairs
  | _ => []

/-- The last of the pairs with a key, of those that are defined. -/
def last (s : String) : List (String × Node) → Option Node
  | [] => none
  | (k, v) :: pairs => (last s pairs).or (if k = s ∧ v.isDefined then some v else none)

/-- The configuration of a child. -/
def child (n : Node) (s : String) : Option Node := last s n.children

/-- The part of a name that is configured. -/
def configured : Node → List String → List String
  | _, [] => []
  | n, s :: parts =>
    match n.child s with
    | none => []
    | some v => s :: v.configured parts

/-- The configurations on the way down a name, as far as there are any. -/
def ancestors : Node → List String → List Node
  | n, [] => [n]
  | n, s :: parts =>
    match n.child s with
    | none => [n]
    | some v => n :: v.ancestors parts

/-- The level that a configuration gives. -/
def explicit (conv : Conv) (n : Node) : Option Level :=
  match n.get "level" with
  | .error _ => none
  | .ok levelRoot =>
    if levelRoot.isDefined then
      (conv.asString levelRoot).bind fun sval ↦ (Level.parse sval).or (conv.asLevel levelRoot)
    else none

/-- The level of the nearest configuration that has one. -/
def effective (conv : Conv) (n : Node) (inherited : Level) (parts : List String) : Level :=
  ((n.ancestors parts).reverse.findSome? (explicit conv)).getD inherited

variable {conv : Conv} {n v : Node} {s : String} {parts : List String}

theorem effective_nil (inherited : Level) :
    n.effective conv inherited [] = (n.explicit conv).getD inherited := by
  rw [effective, ancestors, List.reverse_singleton, List.findSome?_singleton]

theorem effective_of_none (inherited : Level) (h : n.child s = none) :
    n.effective conv inherited (s :: parts) = (n.explicit conv).getD inherited := by
  rw [effective, ancestors, h]
  exact effective_nil inherited

/-- Levels are inherited. -/
theorem effective_of_some (inherited : Level) (h : n.child s = some v) :
    n.effective conv inherited (s :: parts) =
      v.effective conv ((n.explicit conv).getD inherited) parts := by
  rw [effective, ancestors, h, effective]
  dsimp only
  rw [List.reverse_cons, List.findSome?_append, List.findSome?_singleton]
  cases (v.ancestors parts).reverse.findSome? (explicit conv) <;> simp

end Node

namespace Logging

/-- A configuration that `set` can go through, its children aside: it is not a scalar, its file can
be opened, its level is a level, and its children are not in a list. -/
structure ProperAt {P : Type} (conv : Conv) (files : Files P) (n : Node) : Prop where
  subscript : ∀ value, n ≠ .scalar value
  file : ∀ root, n.get "file" = .ok root → root.isDefined = true →
    ∃ fn fp rest, conv.asString root = some fn ∧ files.expand fn = fp :: rest ∧
      files.opens fp = true
  level : ∀ root, n.get "level" = .ok root → root.isDefined = true →
    ∃ sval level, conv.asString root = some sval ∧
      (Level.parse sval).or (conv.asLevel root) = some level
  children : ∀ elem elems, n.childrenRoot ≠ .seq (elem :: elems)

/-- A configuration that `set` can go through. -/
inductive Proper {P : Type} (conv : Conv) (files : Files P) : Node → Prop
  | intro {n : Node} (h : ProperAt conv files n)
    (hchildren : ∀ k v, (k, v) ∈ n.children → v.isDefined = true → Proper conv files v) :
    Proper conv files n

variable {P : Type} [LinearOrder P]

/-- The stream is `std::cerr`, or it is open. -/
def OutOk (t : OutTable P) : Out P → Prop
  | .cerr => True
  | .file fp id => t.streams.get? fp = some ⟨id, true⟩

/-- The tree is what a configuration says. -/
structure Agrees (conv : Conv) (t : OutTable P) (inherited : Level) (cfg : Node)
    (c : LoggingContext P) : Prop where
  path : ∀ parts, (c.find parts).1 = cfg.configured parts
  level : ∀ parts, (c.find parts).2.level = cfg.effective conv inherited parts
  out : ∀ parts, OutOk t (c.find parts).2.out

/-- **What a logger should do when it is used**: it goes through the context for the part of its
name that is configured, at the level of the nearest ancestor that has one, and the stream is one
that can be written to. -/
def Reports (conv : Conv) (cfg : Node) (l : Logging P) (lg : Logger) : Prop :=
  ∃ c, lg.context l = .ok c ∧ l.ctxRoot.at? (cfg.configured lg.name) = some c ∧
    c.level = cfg.effective conv .info lg.name ∧ OutOk l.outTable c.out

/-! ## Streams

Opening a stream keeps those that are open.  So what has been set remains right while the rest of
the section is applied. -/

/-- What is open stays open. -/
def Extends (t t' : OutTable P) : Prop := ∀ out, OutOk t out → OutOk t' out

variable {conv : Conv} {files : Files P} {t t' t'' : OutTable P} {cfg v : Node}
  {c : LoggingContext P} {inherited : Level}

theorem Extends.refl (t : OutTable P) : Extends t t := fun _ ↦ id

theorem Extends.trans (h : Extends t t') (h' : Extends t' t'') : Extends t t'' := fun out hout ↦
  h' out (h out hout)

theorem Agrees.mono (h : Agrees conv t inherited cfg c) (ht : Extends t t') :
    Agrees conv t' inherited cfg c :=
  ⟨h.path, h.level, fun parts ↦ ht _ (h.out parts)⟩

/-- A stream that is not open is of no account. -/
theorem extends_insert {fp : P} (h : ∀ s, t.streams.get? fp = some s → s.isOpen = false)
    (s : LogStream) (next : Nat) : Extends t ⟨t.streams.insert fp s, next⟩ := by
  rintro (_ | ⟨fp', id⟩) hout
  · trivial
  · have hne : fp' ≠ fp := by
      rintro rfl
      cases h _ hout
    rw [OutOk, OrdMap.get?_insert_of_ne _ hne]
    exact hout

/-- A file that can be opened is open, and the others are left alone. -/
theorem openAt_spec (t : OutTable P) {fp : P} (h : files.opens fp = true) :
    OutOk (t.openAt files fp).2 (.file fp (t.openAt files fp).1) ∧
      Extends t (t.openAt files fp).2 := by
  cases hget : t.streams.get? fp with
  | none =>
    have heq : t.openAt files fp = (t.next, ⟨t.streams.insert fp ⟨t.next, true⟩, t.next + 1⟩) := by
      rw [OutTable.openAt, hget, h]
    rw [heq]
    exact ⟨OrdMap.get?_insert_self .., extends_insert (by simp [hget]) _ _⟩
  | some s =>
    obtain ⟨id, isOpen⟩ := s
    cases isOpen with
    | true =>
      have heq : t.openAt files fp = (id, t) := by
        rw [OutTable.openAt, hget]
        rfl
      rw [heq]
      exact ⟨hget, .refl t⟩
    | false =>
      have heq : t.openAt files fp =
          (id, { t with streams := t.streams.insert fp ⟨id, true⟩ }) := by
        rw [OutTable.openAt, hget, h]
        rfl
      rw [heq]
      exact ⟨OrdMap.get?_insert_self .., extends_insert (by simp [hget]) _ _⟩

/-! ## A context and its children

Agreement is a matter of the context itself and of each child, with the level and the stream that it
takes from above. -/

/-- A context agrees with its configuration if its level and its stream do, and so do its
children. -/
theorem agrees_of_root (hlevel : c.level = (cfg.explicit conv).getD inherited)
    (hout : OutOk t c.out)
    (hsub : ∀ s, (cfg.child s = none ∧ c.sub s = none) ∨
      ∃ v c', cfg.child s = some v ∧ c.sub s = some c' ∧ Agrees conv t c.level v c') :
    Agrees conv t inherited cfg c := by
  refine ⟨fun parts ↦ ?_, fun parts ↦ ?_, fun parts ↦ ?_⟩ <;>
    rcases parts with _ | ⟨s, parts⟩
  · rfl
  · rw [Node.configured]
    obtain ⟨hchild, hs⟩ | ⟨v, c', hchild, hs, hagrees⟩ := hsub s
    · rw [LoggingContext.find_of_none hs, hchild]
    · rw [LoggingContext.find_of_some hs, hchild]
      exact congrArg (s :: ·) (hagrees.path parts)
  · rw [Node.effective_nil, ← hlevel]
    rfl
  · obtain ⟨hchild, hs⟩ | ⟨v, c', hchild, hs, hagrees⟩ := hsub s
    · rw [LoggingContext.find_of_none hs, Node.effective_of_none _ hchild, ← hlevel]
    · rw [LoggingContext.find_of_some hs, Node.effective_of_some _ hchild, ← hlevel]
      exact hagrees.level parts
  · exact hout
  · obtain ⟨-, hs⟩ | ⟨v, c', -, hs, hagrees⟩ := hsub s
    · rw [LoggingContext.find_of_none hs]
      exact hout
    · rw [LoggingContext.find_of_some hs]
      exact hagrees.out parts

/-! ## What `set` does

The induction is on the section.  A child that is named twice is set twice, and the second one
starts from what the first has left. -/

/-- `set` goes through, and the context agrees with the configuration. -/
def Sets (conv : Conv) (files : Files P) (cfg : Node) : Prop :=
  ∀ (par : Option (Level × Out P)) c t, (∀ p ∈ par, OutOk t p.2) →
    ∃ c' t', LoggingContext.set conv files cfg par c t = ⟨c', t', none⟩ ∧ Extends t t' ∧
      Agrees conv t' (par.elim .info Prod.fst) cfg c'

/-- The stream is set. -/
theorem setOut_spec (h : ProperAt conv files cfg) (par : Option (Level × Out P))
    (c : LoggingContext P) (t : OutTable P) (hpar : ∀ p ∈ par, OutOk t p.2) :
    ∃ out t', LoggingContext.setOut conv files cfg par c t = ⟨c.withOut out, t', none⟩ ∧
      OutOk t' out ∧ Extends t t' := by
  rw [LoggingContext.setOut]
  cases hget : cfg.get "file" with
  | error x =>
    cases cfg with
    | scalar value => exact absurd rfl (h.subscript value)
    | _ => cases hget
  | ok root =>
    dsimp only
    split
    · rename_i hdefined
      obtain ⟨fn, fp, rest, hfn, hfp, hopens⟩ := h.file root hget hdefined
      obtain ⟨hok, hextends⟩ := openAt_spec t hopens
      rw [hfn]
      dsimp only
      rw [hfp]
      exact ⟨_, _, rfl, hok, hextends⟩
    · refine ⟨_, t, rfl, ?_, .refl t⟩
      cases par with
      | none => trivial
      | some p => exact hpar p rfl

/-- The level is set. -/
theorem setLevel_spec (h : ProperAt conv files cfg) (par : Option (Level × Out P))
    (c : LoggingContext P) (t : OutTable P) : LoggingContext.setLevel conv cfg par c t =
      ⟨c.withLevel ((cfg.explicit conv).getD (par.elim .info Prod.fst)), t, none⟩ := by
  rw [LoggingContext.setLevel, Node.explicit]
  cases hget : cfg.get "level" with
  | error x =>
    cases cfg with
    | scalar value => exact absurd rfl (h.subscript value)
    | _ => cases hget
  | ok root =>
    dsimp only
    split
    · rename_i hdefined
      obtain ⟨sval, level, hsval, hlevel⟩ := h.level root hget hdefined
      rw [hsval]
      dsimp only [Option.bind_some]
      rw [hlevel]
      rfl
    · rfl

theorem setUnder_eq (conv : Conv) (files : Files P) (pairs : List (String × Node))
    (c : LoggingContext P) (t : OutTable P) : LoggingContext.setUnder conv files pairs c t =
      LoggingContext.setChildren conv files (Node.find "children" pairs) c t := by
  induction pairs with
  | nil => rfl
  | cons e pairs ih =>
    obtain ⟨k, v⟩ := e
    rw [LoggingContext.setUnder, Node.find]
    split
    · rfl
    · exact ih

/-- What `set` does to a proper configuration: the stream, the level and the children. -/
theorem set_eq (h : ProperAt conv files cfg) (par : Option (Level × Out P))
    (c : LoggingContext P) (t : OutTable P) : LoggingContext.set conv files cfg par c t =
      ((LoggingContext.setOut conv files cfg par c t).andThen
        (LoggingContext.setLevel conv cfg par)).andThen fun c t ↦
          LoggingContext.setAll conv files cfg.children c.clearSubs t := by
  cases cfg with
  | map defined pairs =>
    rw [LoggingContext.set]
    congr 1
    funext c t
    rw [setUnder_eq, Node.children, Node.childrenRoot]
    have hseq := h.children
    rw [Node.childrenRoot] at hseq
    cases hroot : Node.find "children" pairs with
    | map defined' pairs' => cases defined' <;> rfl
    | seq elems =>
      cases elems with
      | nil => rfl
      | cons elem elems => exact absurd hroot (hseq elem elems)
    | _ => rfl
  | _ => rfl

theorem setAll_nil (conv : Conv) (files : Files P) (c : LoggingContext P) (t : OutTable P) :
    LoggingContext.setAll conv files [] c t = ⟨c, t, none⟩ := by
  rw [LoggingContext.setAll]

/-- A child is set, for which there is a context or not. -/
theorem setAll_cons (h : Sets conv files v) (hv : v.isDefined = true) (k : String)
    (pairs : List (String × Node)) (c : LoggingContext P) (t : OutTable P) (hout : OutOk t c.out) :
    ∃ c' t', LoggingContext.setAll conv files ((k, v) :: pairs) c t =
      LoggingContext.setAll conv files pairs (c.withSub k c') t' ∧ Extends t t' ∧
        Agrees conv t' c.level v c' := by
  rw [LoggingContext.setAll, if_pos hv]
  have hpar : ∀ p ∈ some (c.level, c.out), OutOk t p.2 := by
    rintro p hp
    obtain rfl := Option.some_inj.mp hp
    exact hout
  cases hsub : c.sub k with
  | none =>
    obtain ⟨c', t', hset, hextends, hagrees⟩ :=
      h (some (c.level, c.out)) (.create t.next) { t with next := t.next + 1 } hpar
    refine ⟨c', t', ?_, hextends, hagrees⟩
    dsimp only
    rw [hset]
    rfl
  | some c₀ =>
    obtain ⟨c', t', hset, hextends, hagrees⟩ := h (some (c.level, c.out)) c₀ t hpar
    refine ⟨c', t', ?_, hextends, hagrees⟩
    dsimp only
    rw [hset]
    rfl

/-- **The loop over the children.** -/
theorem setAll_spec {pairs : List (String × Node)}
    (h : ∀ k v, (k, v) ∈ pairs → v.isDefined = true → Sets conv files v) (c : LoggingContext P)
    (t : OutTable P) (hout : OutOk t c.out) :
    ∃ c' t', LoggingContext.setAll conv files pairs c t = ⟨c', t', none⟩ ∧ Extends t t' ∧
      c'.level = c.level ∧ c'.out = c.out ∧
      ∀ s, (Node.last s pairs = none ∧ c'.sub s = c.sub s) ∨
        ∃ v c'', Node.last s pairs = some v ∧ c'.sub s = some c'' ∧
          Agrees conv t' c.level v c'' := by
  induction pairs generalizing c t with
  | nil => exact ⟨c, t, setAll_nil .., .refl t, rfl, rfl, fun s ↦ .inl ⟨rfl, rfl⟩⟩
  | cons e pairs ih =>
    obtain ⟨k, v⟩ := e
    have hrest : ∀ k v, (k, v) ∈ pairs → v.isDefined = true → Sets conv files v :=
      fun k v hv ↦ h k v (List.mem_cons_of_mem _ hv)
    by_cases hv : v.isDefined = true
    · obtain ⟨c₁, t₁, heq, hextends, hagrees⟩ :=
        setAll_cons (h k v (by simp) hv) hv k pairs c t hout
      obtain ⟨hlevel, hout₁⟩ := LoggingContext.withSub_level c c₁ k
      obtain ⟨c', t', heq', hextends', hlevel', hout', hsub⟩ :=
        ih hrest (c.withSub k c₁) t₁ (hout₁ ▸ hextends _ hout)
      refine ⟨c', t', heq.trans heq', hextends.trans hextends', hlevel'.trans hlevel,
        hout'.trans hout₁, fun s ↦ ?_⟩
      rw [Node.last]
      obtain ⟨hlast, hs⟩ | ⟨w, c'', hlast, hs, hw⟩ := hsub s
      · -- this is the last child of its name
        rw [LoggingContext.sub_withSub] at hs
        by_cases hk : k = s
        · rw [if_pos hk.symm] at hs
          exact .inr ⟨v, c₁, by simp [hlast, hk, hv], hs, hagrees.mono hextends'⟩
        · rw [if_neg (Ne.symm hk)] at hs
          exact .inl ⟨by simp [hlast, hk], hs⟩
      · rw [hlevel] at hw
        exact .inr ⟨w, c'', by simp [hlast], hs, hw⟩
    · obtain ⟨c', t', heq, hextends, hlevel, hout', hsub⟩ := ih hrest c t hout
      have hlast : ∀ s, Node.last s ((k, v) :: pairs) = Node.last s pairs := by
        simp [Node.last, hv]
      refine ⟨c', t', ?_, hextends, hlevel, hout', fun s ↦ by rw [hlast]; exact hsub s⟩
      rw [LoggingContext.setAll, if_neg hv]
      exact heq

/-- **`set` goes through a proper configuration**, and makes the tree that it describes. -/
theorem sets_of_proper (h : Proper conv files cfg) : Sets (P := P) conv files cfg := by
  induction h with
  | @intro n h _ ih =>
    intro par c t hpar
    obtain ⟨out, t₁, hout, hok, hextends⟩ := setOut_spec h par c t hpar
    obtain ⟨id, level, out₀, subs⟩ := c
    have hlevel := setLevel_spec h par (.mk id level out subs) t₁
    generalize hlvl : (n.explicit conv).getD (par.elim .info Prod.fst) = lvl at hlevel
    obtain ⟨c', t', hall, hextends', hlevel', hout', hsub⟩ :=
      setAll_spec ih (.mk id lvl out []) t₁ hok
    refine ⟨c', t', ?_, hextends.trans hextends', agrees_of_root (hlevel'.trans hlvl.symm) ?_ ?_⟩
    · rw [set_eq h, hout]
      dsimp only [Setting.andThen, LoggingContext.withOut]
      rw [hlevel]
      exact hall
    · rw [hout']
      exact hextends' _ hok
    · rw [hlevel']
      exact hsub

/-! ## Reports

A logger either has looked up its context since the last change or looks it up now.  In both cases
the pointer is good, and it leads to the right context. -/

/-- The context that a logger keeps is the one that it would find. -/
structure Fresh (l : Logging P) (lg : Logger) : Prop where
  serial : lg.serial ≤ l.serial
  ctx : lg.serial = l.serial →
    lg.ctx = some ⟨(l.ctxRoot.find lg.name).1, (l.ctxRoot.find lg.name).2.id⟩

variable {l : Logging P} {lg : Logger} {w w' : Process P}

theorem Fresh.refresh (h : Fresh l lg) : Fresh l (lg.refresh l) ∧ (lg.refresh l).ctx =
    some ⟨(l.ctxRoot.find lg.name).1, (l.ctxRoot.find lg.name).2.id⟩ := by
  rw [Logger.refresh]
  split
  · exact ⟨⟨Nat.le_refl _, fun _ ↦ rfl⟩, rfl⟩
  · rename_i hserial
    have heq : lg.serial = l.serial := Nat.le_antisymm h.serial (Nat.le_of_not_lt hserial)
    exact ⟨h, h.ctx heq⟩

theorem Fresh.context (h : Fresh l lg) : lg.context l = .ok (l.ctxRoot.find lg.name).2 := by
  rw [Logger.context, h.refresh.2]
  exact l.deref_find lg.name

theorem Fresh.reports (h : Fresh l lg) (hagrees : Agrees conv l.outTable .info cfg l.ctxRoot) :
    Reports conv cfg l lg := by
  refine ⟨_, h.context, ?_, hagrees.level lg.name, hagrees.out lg.name⟩
  rw [← hagrees.path lg.name]
  exact LoggingContext.at?_find ..

/-- A report gets to where it should. -/
theorem Reports.report (h : Reports conv cfg l lg) (lvl : Level) : ∃ out, OutOk l.outTable out ∧
    lg.report l lvl =
      .ok (if lvl < cfg.effective conv .info lg.name then none else some out) := by
  obtain ⟨c, hcontext, -, hlevel, hout⟩ := h
  refine ⟨c.out, hout, ?_⟩
  rw [Logger.report, hcontext, ← hlevel]
  dsimp only [bind, Except.bind]
  split
  · rfl
  · cases hc : c.out with
    | cerr => rfl
    | file fp id =>
      rw [hc, OutOk] at hout
      dsimp only
      rw [hout]
      exact if_pos rfl

/-! ## Runs

What has to be kept is that the contexts agree with the last section, and that no context has a
stream that is closed.  It is the second of these that a reload without a section can break. -/

/-- The step that a configuration is applied in does no harm: `serial` does not wrap around; a
section is proper; and if there is none, then no context has a file. -/
def Clean (conv : Conv) (w : Process P) : Process.Act P → Prop
  | .configure files cfg => w.logging.serial + 1 < 2 ^ 32 ∧
    if cfg.isDefined then Proper conv files cfg
    else ∀ path c, w.logging.ctxRoot.at? path = some c → c.out = .cerr
  | _ => True

/-- The section that is applied by a step, if any. -/
def sectionOf (_ : Process P) : Process.Act P → List Node
  | .configure _ cfg => if cfg.isDefined then [cfg] else []
  | _ => []

/-- What is configured, after these sections have been applied. -/
def applied (sections : List Node) : Node := sections.getLast?.getD .null

/-- The invariant. -/
structure Held (conv : Conv) (w : Process P) (cfg : Node) : Prop where
  serial : 1 ≤ w.logging.serial
  agrees : Agrees conv w.logging.outTable .info cfg w.logging.ctxRoot
  fresh : ∀ lg ∈ w.loggers, Fresh w.logging lg

theorem held_init (conv : Conv) : Held conv (Process.init : Process P) .null :=
  ⟨Nat.le_refl 1, agrees_of_root rfl trivial fun _ ↦ .inl ⟨rfl, rfl⟩, nofun⟩

/-- A configuration is applied. -/
theorem Held.configure (h : Held conv w cfg) {files : Files P} {cfg' : Node}
    (hclean : Clean conv w (.configure files cfg')) :
    ∃ l, w.logging.configureIn conv files cfg' = (l, none) ∧
      Held conv { w with logging := l } (if cfg'.isDefined then cfg' else cfg) := by
  obtain ⟨hwrap, hclean⟩ := hclean
  have hserial : (w.logging.serial + 1) % 2 ^ 32 = w.logging.serial + 1 := Nat.mod_eq_of_lt hwrap
  have hfresh : ∀ l : Logging P, l.serial = w.logging.serial + 1 → ∀ lg ∈ w.loggers,
      Fresh l lg := by
    intro l hl lg hlg
    have hle := (h.fresh lg hlg).serial
    exact ⟨by omega, fun heq ↦ by omega⟩
  rw [Logging.configureIn, hserial]
  split at hclean
  · rename_i hdefined
    obtain ⟨c', t', hset, -, hagrees⟩ :=
      sets_of_proper hclean none w.logging.ctxRoot w.logging.outTable.clear nofun
    refine ⟨⟨w.logging.serial + 1, t', c'⟩, ?_, by simp, ?_, hfresh _ rfl⟩
    · rw [if_pos hdefined, hset]
    · rw [if_pos hdefined]
      exact hagrees
  · rename_i hdefined
    refine ⟨⟨w.logging.serial + 1, w.logging.outTable.clear, w.logging.ctxRoot⟩, ?_, by simp, ?_,
      hfresh _ rfl⟩
    · rw [if_neg hdefined]
    rw [if_neg hdefined]
    refine ⟨h.agrees.path, h.agrees.level, fun parts ↦ ?_⟩
    rw [hclean _ _ (LoggingContext.at?_find w.logging.ctxRoot parts)]
    trivial

/-- **One step.** -/
theorem Held.step (h : Held conv w cfg) {a : Process.Act P} (hclean : Clean conv w a)
    (hstep : Process.step conv w a = .ok w') :
    Held conv w' (((sectionOf w a).getLast?).getD cfg) := by
  cases a with
  | configure files cfg' =>
    obtain ⟨l, hl, hheld⟩ := h.configure hclean
    rw [Process.step, hl] at hstep
    obtain rfl := Except.ok.inj hstep
    rw [sectionOf]
    split
    · rwa [if_pos ‹_›] at hheld
    · rwa [if_neg ‹_›] at hheld
  | create name comp =>
    obtain rfl := Except.ok.inj hstep
    refine ⟨h.serial, h.agrees, fun lg hlg ↦ ?_⟩
    obtain hlg | hlg := List.mem_append.mp hlg
    · exact h.fresh lg hlg
    · -- it has not looked anything up
      obtain rfl := List.mem_singleton.mp hlg
      have hpos := h.serial
      exact ⟨Nat.zero_le _, fun heq ↦ by rw [← heq] at hpos; cases hpos⟩
  | report i lvl =>
    rw [Process.step] at hstep
    split at hstep
    · obtain rfl := Except.ok.inj hstep
      exact h
    · rename_i lg hget
      obtain ⟨-, -, rfl⟩ := map_ok hstep
      refine ⟨h.serial, h.agrees, fun lg' hlg' ↦ ?_⟩
      obtain hlg' | rfl := List.mem_or_eq_of_mem_set hlg'
      · exact h.fresh lg' hlg'
      · exact (h.fresh lg (List.mem_of_getElem? hget)).refresh.1

/-- The invariant holds in a run of clean steps. -/
theorem held_of_reach {w : Process P} {sections : List Node}
    (h : Run.Reach (Run.recorded (Process.step conv) sectionOf) (fun s a ↦ Clean conv s.1 a)
      (Process.init, []) (w, sections)) : Held conv w (applied sections) := by
  refine h.invariant (I := fun s ↦ Held conv s.1 (applied s.2)) (held_init conv) ?_
  rintro ⟨w, log⟩ a ⟨w', log'⟩ hheld hclean hstep
  obtain ⟨hstep', rfl : log' = log ++ sectionOf w a⟩ := Run.recorded_ok hstep
  have hheld' := hheld.step hclean hstep'
  rw [applied, List.getLast?_append]
  cases hlast : (sectionOf w a).getLast? with
  | none => rwa [hlast] at hheld'
  | some cfg => rwa [hlast] at hheld'

/-- **Loggers across reloads.**  In runs whose steps are all clean, a logger that is used reports
through the context for its name, at the level that is configured for it, and to a stream that can
be written to. -/
theorem loggers_report {w : Process P} {sections : List Node}
    (h : Run.Reach (Run.recorded (Process.step conv) sectionOf) (fun s a ↦ Clean conv s.1 a)
      (Process.init, []) (w, sections)) :
    ∀ lg ∈ w.loggers, Reports conv (applied sections) w.logging lg := fun lg hlg ↦
  ((held_of_reach h).fresh lg hlg).reports (held_of_reach h).agrees

/-! ## Two runs

One run in which all goes well, and one that is cut off from its stream. -/

/-- A scalar is a string or a number. -/
def plainConv : Conv where
  asString := Node.text
  asLevel n := n.text.bind String.toNat?

/-- Every name stands for one file, which can be opened. -/
def oneFile : Files Nat := ⟨fun _ ↦ [0], fun _ ↦ true⟩

/-- A section with a file for one part of the names. -/
def sectionWithFile : Node :=
  .map true [("level", .scalar "debug"),
    ("children", .map true [("udptun", .map true [("file", .scalar "log")])])]

theorem proper_sectionWithFile : Proper plainConv oneFile sectionWithFile := by
  have hleaf : Proper plainConv oneFile (.map true [("file", .scalar "log")]) := by
    refine .intro ⟨nofun, ?_, ?_, nofun⟩ (fun _ _ ↦ nofun)
    · intro root hroot _
      obtain rfl := Except.ok.inj hroot
      exact ⟨"log", 0, [], rfl, rfl, rfl⟩
    · intro root hroot hdefined
      obtain rfl := Except.ok.inj hroot
      cases hdefined
  refine .intro ⟨nofun, ?_, ?_, nofun⟩ fun k v hv _ ↦ ?_
  · intro root hroot hdefined
    obtain rfl := Except.ok.inj hroot
    cases hdefined
  · intro root hroot _
    obtain rfl := Except.ok.inj hroot
    exact ⟨"debug", .debug, rfl, by decide⟩
  · obtain ⟨rfl, rfl⟩ := Prod.mk.inj (List.mem_singleton.mp hv)
    exact hleaf

/-- A logger is made, and then there is a section for it. -/
theorem loggers_report_two : ∃ (w : Process Nat) (sections : List Node),
    .create "udptun.main" "main" ∈ w.loggers ∧ sections = [sectionWithFile] ∧
      ∀ lg ∈ w.loggers, Reports plainConv (applied sections) w.logging lg := by
  refine ⟨_, _, ?_, ?_, loggers_report
    (((Run.Reach.refl.tail (a := .create "udptun.main" "main") trivial rfl).tail
      (a := .configure oneFile sectionWithFile) ⟨by decide, proper_sectionWithFile⟩ rfl))⟩
  · decide
  · rfl

/-- There is a file for a time, and then no section. -/
theorem reload_without_section : ¬ ∀ (conv : Conv) (w : Process Nat) (sections : List Node),
    Run.Reach (Run.recorded (Process.step conv) sectionOf) Run.anyStep (Process.init, [])
      (w, sections) → ∀ lg ∈ w.loggers, Reports conv (applied sections) w.logging lg := by
  intro hall
  have hreports := hall plainConv _ _ (((Run.Reach.refl.tail (a := .create "udptun" "") trivial
    rfl).tail (a := .configure oneFile (.map true [("file", .scalar "log")])) trivial rfl).tail
      (a := .configure oneFile .undefined) trivial rfl) (.create "udptun" "") (by decide)
  obtain ⟨c, -, hat, -, hout⟩ := hreports
  obtain rfl := Option.some_inj.mp hat
  cases hout

end Logging
end UdpTun
