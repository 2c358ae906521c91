import UdpTun.Yaml

/-!
# Merging configuration files

`Config::get` merges the files of the command line into one tree, later ones over earlier ones.  A
scalar replaces what is there, the elements of a sequence are appended to what is there, and a map
is gone into key by key.

The result is written to through `Node.Writer`, of which no more is known than that it is lawful.
The node at a new key is undefined until a scalar or an element gets there, or further down, and
`merge` does nothing about it; so a key with an empty map or an empty sequence is lost
(`empty_map_is_lost`).  `Merged` says what the result is like, for files that are `Compatible`, and
`get_merges` that it is so.
-/

set_option autoImplicit false

namespace UdpTun
namespace Config

open Node (undefined Writer)

/-! ## The source

`merge` goes by the type of `src`.  Its first argument is a handle, so what it does there is given
back as the node after it. -/

section

variable {N : Type} (W : Writer N)

mutual

/-- `merge`, which changes `dst`. -/
def merge : N → Node → Except Halt N
  | dst, .undefined => .ok dst
  | dst, .null => .ok dst
  | dst, .scalar value => .ok (W.assign dst (.scalar value))
  | dst, .seq elems => elems.foldlM W.pushBack dst
  | dst, .map defined pairs => if defined then mergeAll dst pairs else .ok dst

/-- The loop over a map in `merge`.  What `dst[k] = ref` assigns is there already. -/
def mergeAll : N → List (String × Node) → Except Halt N
  | dst, [] => .ok dst
  | dst, (k, v) :: pairs =>
    if v.isDefined then do
      let r ← W.subscript dst k
      let ref ← merge r.2 v
      mergeAll (W.put r.1 k ref) pairs
    else mergeAll dst pairs

end

/-- The loop of `Config::get`, over files that have been loaded. -/
def mergeFiles (files : List Node) : Except Halt N := files.foldlM (merge W) W.null

/-- `Config::get`, where `load` is `YAML::LoadFile`. -/
def get (load : String → Except Halt Node) (sourceFiles : List String) : Except Halt N :=
  sourceFiles.foldlM (fun result fn ↦ do merge W result (← load fn)) W.null

end

/-! ## What files say

A file is flattened into what it says of each path: the scalars there, and the elements of the
sequences there.  A key that leads to nothing but empty maps and sequences says nothing. -/

/-- The scalars among some nodes. -/
def texts (vs : List Node) : List String := vs.filterMap Node.text

/-- The elements of the sequences among some nodes. -/
def items (vs : List Node) : List Node := vs.flatMap Node.elems

/-- There is a scalar, or a sequence with something in it. -/
def Given (vs : List Node) : Prop := texts vs ≠ [] ∨ items vs ≠ []

/-- All that is at a path of some files, in order. -/
def valuesOf (files : List Node) (p : List String) : List Node := files.flatMap (·.values p)

/-- Whatever the files have at one path is of one kind. -/
def Compatible (files : List Node) : Prop :=
  ∀ p, ∀ v ∈ valuesOf files p, ∀ w ∈ valuesOf files p, ∀ a b,
    v.kind = some a → w.kind = some b → a = b

/-- What the merged tree is like. -/
structure Merged (files : List Node) (r : Node) : Prop where
  /-- The last scalar stands. -/
  scalar : ∀ p value, (texts (valuesOf files p)).getLast? = some value →
    r.at? p = some (.scalar value)
  /-- Sequences are concatenated. -/
  seq : ∀ p, items (valuesOf files p) ≠ [] → r.at? p = some (.seq (items (valuesOf files p)))
  /-- The rest are maps. -/
  map : ∀ p v, p ≠ [] → ¬ Given (valuesOf files p) → r.at? p = some v → v.kind = some .map
  /-- There is nothing but what has a scalar or an element at it or below it. -/
  present : ∀ p, p ≠ [] → ((r.at? p).isSome ↔ ∃ q, Given (valuesOf files (p ++ q)))

/-- Two trees are alike at a path. -/
structure AlikeAt (n n' : Node) (p : List String) : Prop where
  text : (n.peek p).text = (n'.peek p).text
  elems : (n.peek p).elems = (n'.peek p).elems
  present : p ≠ [] → ((n.at? p).isSome ↔ (n'.at? p).isSome)

@[simp] theorem texts_append (vs ws : List Node) : texts (vs ++ ws) = texts vs ++ texts ws :=
  List.filterMap_append

@[simp] theorem items_append (vs ws : List Node) : items (vs ++ ws) = items vs ++ items ws :=
  List.flatMap_append

theorem given_append {vs ws : List Node} : Given (vs ++ ws) ↔ Given vs ∨ Given ws := by
  simp only [Given, texts_append, items_append, ne_eq, List.append_eq_nil_iff]
  tauto

theorem not_given_nil : ¬ Given [] := by simp [Given, texts, items]

/-! ## What merging does

While files are merged, all that is known of the tree is kept in these terms.  `Effect` says what
has become of each path, and follows the recursion of `merge`. -/

/-- A node of a tree that is being merged: it is of the kind that is expected or nothing yet, no key
is twice in it, and it is defined if anything in it is. -/
structure Plain (κ : Node.Kind) (n : Node) : Prop where
  kind : n.kind = none ∨ n.kind = some κ
  nodup : n.keys.Nodup
  upward : ∀ k, (n.peek [k]).isDefined = true → n.isDefined = true

/-- All nodes of the tree are plain, where `κ` gives the kind for each path. -/
def Tidy (κ : List String → Node.Kind) (n : Node) : Prop := ∀ p, Plain (κ p) (n.peek p)

/-- What is at a path is of the kind for it, or null. -/
def Typed (κ : List String → Node.Kind) (vs : List String → List Node) : Prop :=
  ∀ p, ∀ v ∈ vs p, v.kind = none ∨ v.kind = some (κ p)

/-- **The effect of a merge** on a tree, where `vs` is what is merged into it. -/
structure Effect (dst dst' : Node) (vs : List String → List Node) : Prop where
  text : ∀ p, (dst'.peek p).text = (texts (vs p)).getLast?.or (dst.peek p).text
  elems : ∀ p, (dst'.peek p).elems = (dst.peek p).elems ++ items (vs p)
  isDefined : ∀ p, (dst'.peek p).isDefined = true ↔
    (dst.peek p).isDefined = true ∨ ∃ q, Given (vs (p ++ q))

variable {κ : List String → Node.Kind} {dst dst' dst'' : Node} {vs ws : List String → List Node}

theorem Effect.refl (dst : Node) (h : ∀ p, ¬ Given (vs p)) : Effect dst dst vs := by
  simp only [Given, not_or, not_not] at h
  refine ⟨fun p ↦ ?_, fun p ↦ ?_, fun p ↦ ?_⟩
  · rw [(h p).1]
    rfl
  · rw [(h p).2, List.append_nil]
  · simp [Given, h]

theorem Effect.trans (h : Effect dst dst' vs) (h' : Effect dst' dst'' ws) :
    Effect dst dst'' fun p ↦ vs p ++ ws p := by
  refine ⟨fun p ↦ ?_, fun p ↦ ?_, fun p ↦ ?_⟩
  · rw [h'.text, h.text, texts_append, List.getLast?_append, Option.or_assoc]
  · rw [h'.elems, h.elems, items_append, List.append_assoc]
  · rw [h'.isDefined, h.isDefined, or_assoc]
    simp only [given_append, exists_or]

/-- Only scalars and elements matter. -/
theorem Effect.congr (h : Effect dst dst' vs)
    (hvs : ∀ p, texts (vs p) = texts (ws p) ∧ items (vs p) = items (ws p)) :
    Effect dst dst' ws := by
  refine ⟨fun p ↦ ?_, fun p ↦ ?_, fun p ↦ ?_⟩
  · rw [h.text, (hvs p).1]
  · rw [h.elems, (hvs p).2]
  · rw [h.isDefined]
    simp only [Given, hvs]

theorem plain_undefined (k : Node.Kind) : Plain k undefined :=
  ⟨.inl rfl, List.nodup_nil, fun k ↦ by simp⟩

theorem tidy_undefined (κ : List String → Node.Kind) : Tidy κ undefined := fun p ↦ by
  rw [Node.peek_undefined]
  exact plain_undefined _

/-- What a tidy tree has in it is tidy. -/
theorem Tidy.peek (h : Tidy κ dst) (k : String) :
    Tidy (fun p ↦ κ (k :: p)) (dst.peek [k]) := fun p ↦ by
  rw [← dst.peek_cons]
  exact h (k :: p)

theorem Tidy.root (h : Tidy κ dst) : Plain (κ []) dst := by
  have hroot := h []
  rwa [Node.peek_nil] at hroot

/-! ### From the root and what is in it

What is true of a tree at all paths is true of its root, and at all keys of what is in it. -/

theorem tidy_of_root (hroot : Plain (κ []) dst)
    (h : ∀ k, Tidy (fun p ↦ κ (k :: p)) (dst.peek [k])) : Tidy κ dst := by
  intro p
  cases p with
  | nil => rwa [Node.peek_nil]
  | cons k p =>
    rw [dst.peek_cons]
    exact h k p

theorem effect_of_root (htext : dst'.text = (texts (vs [])).getLast?.or dst.text)
    (helems : dst'.elems = dst.elems ++ items (vs []))
    (hdefined : dst'.isDefined = true ↔ dst.isDefined = true ∨ ∃ q, Given (vs q))
    (h : ∀ k, Effect (dst.peek [k]) (dst'.peek [k]) fun p ↦ vs (k :: p)) : Effect dst dst' vs := by
  refine ⟨fun p ↦ ?_, fun p ↦ ?_, fun p ↦ ?_⟩
  · cases p with
    | nil => simpa using htext
    | cons k p =>
      rw [dst'.peek_cons, dst.peek_cons]
      exact (h k).text p
  · cases p with
    | nil => simpa using helems
    | cons k p =>
      rw [dst'.peek_cons, dst.peek_cons]
      exact (h k).elems p
  · cases p with
    | nil => simpa using hdefined
    | cons k p =>
      rw [dst'.peek_cons, dst.peek_cons]
      exact (h k).isDefined p

/-- A node that is not a map has nothing in it. -/
theorem tidy_leaf {n : Node} (hkind : n.kind ≠ some .map) (h : Plain (κ []) n) : Tidy κ n :=
  tidy_of_root h fun k ↦ by
    rw [Node.peek_cons_of_kind hkind]
    exact tidy_undefined _

theorem effect_leaf {n n' : Node} (hkind : n.kind ≠ some .map) (hkind' : n'.kind ≠ some .map)
    (hvs : ∀ k p, vs (k :: p) = []) (htext : n'.text = (texts (vs [])).getLast?.or n.text)
    (helems : n'.elems = n.elems ++ items (vs []))
    (hdefined : n'.isDefined = true ↔ n.isDefined = true ∨ Given (vs [])) : Effect n n' vs := by
  refine effect_of_root htext helems ?_ fun k ↦ ?_
  · rw [hdefined]
    refine or_congr_right ⟨fun h ↦ ⟨[], h⟩, fun ⟨q, hq⟩ ↦ ?_⟩
    cases q with
    | nil => exact hq
    | cons k q => exact absurd (hvs k q ▸ hq) not_given_nil
  · rw [Node.peek_cons_of_kind hkind, Node.peek_cons_of_kind hkind']
    exact .refl _ fun p ↦ by rw [hvs]; exact not_given_nil

/-! ### One key

Writing at a key changes what is at paths that begin with it, and nothing else.  This is the one
place where the writer is used. -/

/-- What there is at the paths that begin with a key. -/
def under (k : String) (vs : List String → List Node) : List String → List Node
  | [] => []
  | k' :: p => if k' = k then vs p else []

/-- What there is at the paths into some pairs. -/
def inside (pairs : List (String × Node)) : List String → List Node
  | [] => []
  | k :: p => pairs.flatMap fun e ↦ if e.1 = k then e.2.values p else []

theorem inside_cons (k : String) (v : Node) (pairs : List (String × Node)) (p : List String) :
    inside ((k, v) :: pairs) p = under k v.values p ++ inside pairs p := by
  cases p with
  | nil => rfl
  | cons k' p =>
    rw [inside, List.flatMap_cons, under, inside]
    simp only [eq_comm]

/-- A node has neither text nor elements if it is a map or nothing yet. -/
theorem text_elems_of_subscriptable {n : Node} (h : n.Subscriptable) :
    n.text = none ∧ n.elems = [] := by
  cases n <;> first | exact ⟨rfl, rfl⟩ | (rcases h with h | h <;> cases h)

theorem Tidy.subscriptable (h : Tidy κ dst) (hmap : κ [] = .map) : dst.Subscriptable := by
  rw [Node.Subscriptable, ← hmap]
  exact h.root.kind

/-- **Merging at one key.** -/
theorem effect_written (hmap : κ [] = .map) (h : Tidy κ dst) {k : String} {v n : Node}
    (hn : Node.Written dst k v n) (hv : Tidy (fun p ↦ κ (k :: p)) v)
    (heffect : Effect (dst.peek [k]) v vs) : Tidy κ n ∧ Effect dst n (under k vs) := by
  obtain ⟨hkind, hnodup, hdefined, hpeek⟩ := hn
  have hroot := heffect.isDefined []
  simp only [Node.peek_nil, List.nil_append] at hroot
  have hkeys : ∀ k', n.peek [k'] = if k' = k then v else dst.peek [k'] := by
    intro k'
    rw [hpeek, Node.peek_nil]
  constructor
  · refine tidy_of_root ⟨.inr (hmap ▸ hkind), hnodup, fun k' hk' ↦ ?_⟩ fun k' ↦ ?_
    · rw [hkeys] at hk'
      rw [hdefined, Bool.or_eq_true]
      split at hk'
      · exact .inr hk'
      · exact .inl (h.root.upward k' hk')
    · rw [hkeys]
      split
      · rename_i hk
        rwa [hk]
      · exact h.peek k'
  · have hput := text_elems_of_subscriptable (n := n) (.inr hkind)
    have hdst := text_elems_of_subscriptable (h.subscriptable hmap)
    refine effect_of_root ?_ ?_ ?_ fun k' ↦ ?_
    · rw [hput.1, hdst.1]
      rfl
    · rw [hput.2, hdst.2]
      rfl
    · rw [hdefined, Bool.or_eq_true, hroot, ← or_assoc,
        or_iff_left_of_imp (h.root.upward k)]
      refine or_congr_right ⟨fun ⟨q, hq⟩ ↦ ⟨k :: q, by simpa [under] using hq⟩, fun ⟨q, hq⟩ ↦ ?_⟩
      cases q with
      | nil => exact absurd hq not_given_nil
      | cons k' q =>
        rw [under] at hq
        split at hq
        · exact ⟨q, hq⟩
        · exact absurd hq not_given_nil
    · rw [hkeys]
      simp only [under]
      split
      · rename_i hk
        rwa [hk]
      · exact .refl _ fun _ ↦ not_given_nil

/-! ### Any tree

The induction is on the tree that is merged, as in `merge` itself.  A map goes through its keys from
first to last, and each is a case of the lemma before. -/

/-- What is defined and of a kind sets the kind. -/
theorem Typed.root {src : Node} (h : Typed κ src.values) (hsrc : src.isDefined = true)
    {k : Node.Kind} (hk : src.kind = some k) : κ [] = k := by
  have hmem : src ∈ src.values [] := by
    rw [Node.values.eq_def]
    cases src <;> simp_all
  rcases h [] src hmem with hnone | hsome
  · rw [hnone] at hk
    cases hk
  · exact Option.some_inj.mp (hsome.symm.trans hk)

theorem Typed.left {vs ws : List String → List Node} (h : Typed κ fun p ↦ vs p ++ ws p) :
    Typed κ vs := fun p v hv ↦ h p v (List.mem_append_left _ hv)

theorem Typed.right {vs ws : List String → List Node} (h : Typed κ fun p ↦ vs p ++ ws p) :
    Typed κ ws := fun p v hv ↦ h p v (List.mem_append_right _ hv)

theorem Typed.of_under {k : String} (h : Typed κ (under k vs)) :
    Typed (fun p ↦ κ (k :: p)) vs := fun p v hv ↦ h (k :: p) v (by simpa [under] using hv)

/-- A scalar is merged. -/
theorem effect_scalar (h : Tidy κ dst) (hκ : κ [] = .scalar) (value : String) :
    Tidy κ (.scalar value) ∧ Effect dst (.scalar value) (Node.scalar value).values := by
  have hdst := h.root.kind
  rw [hκ] at hdst
  have hmap : dst.kind ≠ some .map := by rcases hdst with hdst | hdst <;> simp [hdst]
  refine ⟨tidy_leaf (by simp [Node.kind]) ⟨.inr (hκ ▸ rfl), List.nodup_nil, fun _ _ ↦ rfl⟩,
    effect_leaf hmap (by simp [Node.kind]) (fun _ _ ↦ rfl) rfl ?_ ?_⟩
  · cases dst <;> first | rfl | simp [Node.kind] at hdst
  · simp [Given, texts, Node.values, Node.isDefined, Node.text]

/-- A sequence is merged. -/
theorem effect_seq (h : Tidy κ dst) (hκ : κ [] = .seq) (elems : List Node)
    (hdst' : dst' = if elems = [] then dst else .seq (dst.elems ++ elems)) :
    Tidy κ dst' ∧ Effect dst dst' (Node.seq elems).values := by
  have hdst := h.root.kind
  rw [hκ] at hdst
  have hmap : dst.kind ≠ some .map := by rcases hdst with hdst | hdst <;> simp [hdst]
  have htexts : texts ((Node.seq elems).values []) = [] := rfl
  have hitems : items ((Node.seq elems).values []) = elems := by
    simp [items, Node.values, Node.isDefined, Node.elems]
  rw [hdst']
  split
  · rename_i helems
    rw [helems] at htexts hitems ⊢
    refine ⟨h, effect_leaf hmap hmap (fun _ _ ↦ rfl) rfl ?_ ?_⟩
    · rw [hitems, List.append_nil]
    · simp [Given, htexts, hitems]
  · rename_i helems
    refine ⟨tidy_leaf (by simp [Node.kind]) ⟨.inr (hκ ▸ rfl), List.nodup_nil, fun _ _ ↦ rfl⟩,
      effect_leaf hmap (by simp [Node.kind]) (fun _ _ ↦ rfl) ?_ ?_ ?_⟩
    · cases dst <;> first | rfl | simp [Node.kind] at hdst
    · rw [hitems]
      rfl
    · simp [Given, hitems, helems, Node.isDefined]

section

variable {N : Type} {W : Writer N}

mutual

/-- **Merging a tree**, where it is of the kinds that are expected. -/
theorem merge_spec (hW : W.Lawful) : ∀ (src : Node) {dst : N} {κ : List String → Node.Kind},
    Tidy κ (W.look dst) → Typed κ src.values → ∃ dst', merge W dst src = .ok dst' ∧
      Tidy κ (W.look dst') ∧ Effect (W.look dst) (W.look dst') src.values
  | .undefined, dst, κ, h, _ => by
    refine ⟨dst, by rw [merge], h, .refl _ fun p ↦ ?_⟩
    cases p <;> exact not_given_nil
  | .null, dst, κ, h, _ => by
    refine ⟨dst, by rw [merge], h, .refl _ fun p ↦ ?_⟩
    cases p <;> simp [Given, texts, items, Node.values, Node.isDefined, Node.text, Node.elems]
  | .scalar value, dst, κ, h, hs => by
    refine ⟨W.assign dst (.scalar value), by rw [merge], ?_⟩
    rw [hW.assign]
    exact effect_scalar h (hs.root rfl rfl) value
  | .seq elems, dst, κ, h, hs => by
    have hκ := hs.root rfl rfl
    obtain ⟨dst', hfold, hlook⟩ := hW.foldlM_pushBack (hκ ▸ h.root.kind) elems
    exact ⟨dst', by rw [merge, hfold], effect_seq h hκ elems hlook⟩
  | .map false pairs, dst, κ, h, _ => by
    refine ⟨dst, by rw [merge]; rfl, h, .refl _ fun p ↦ ?_⟩
    cases p <;> exact not_given_nil
  | .map true pairs, dst, κ, h, hs => by
    have hκ := hs.root rfl rfl
    have htyped : Typed κ (inside pairs) := by
      intro p v hv
      cases p with
      | nil => cases hv
      | cons k p => exact hs (k :: p) v hv
    obtain ⟨dst', hmerge, htidy, heffect⟩ := mergeAll_spec hW pairs hκ h htyped
    refine ⟨dst', by rw [merge, if_pos rfl, hmerge], htidy, heffect.congr fun p ↦ ?_⟩
    cases p <;> exact ⟨rfl, rfl⟩

/-- Merging the pairs of a map. -/
theorem mergeAll_spec (hW : W.Lawful) : ∀ (pairs : List (String × Node)) {dst : N}
    {κ : List String → Node.Kind}, κ [] = .map → Tidy κ (W.look dst) → Typed κ (inside pairs) →
      ∃ dst', mergeAll W dst pairs = .ok dst' ∧ Tidy κ (W.look dst') ∧
        Effect (W.look dst) (W.look dst') (inside pairs)
  | [], dst, κ, _, h, _ => by
    refine ⟨dst, by rw [mergeAll], h, .refl _ fun p ↦ ?_⟩
    cases p <;> exact not_given_nil
  | (k, v) :: pairs, dst, κ, hκ, h, hs => by
    have hvs : inside ((k, v) :: pairs) = fun p ↦ under k v.values p ++ inside pairs p :=
      funext (inside_cons k v pairs)
    rw [hvs] at hs ⊢
    rw [mergeAll]
    split
    · have hsub := h.subscriptable hκ
      obtain ⟨r, hsubscript, hlook⟩ := hW.subscript dst k hsub
      obtain ⟨ref, hmerge, htidy, heffect⟩ :=
        merge_spec hW v (hlook ▸ h.peek k : Tidy _ (W.look r.2)) hs.left.of_under
      rw [hlook] at heffect
      obtain ⟨htidy', heffect'⟩ :=
        effect_written hκ h (hW.put dst k r ref hsub h.root.nodup hsubscript) htidy heffect
      obtain ⟨dst', hrest, htidy'', heffect''⟩ := mergeAll_spec hW pairs hκ htidy' hs.right
      refine ⟨dst', ?_, htidy'', heffect'.trans heffect''⟩
      rw [hsubscript]
      dsimp only [bind, Except.bind]
      rw [hmerge]
      exact hrest
    · -- an undefined node is passed over, and has nothing to say
      rename_i hv
      obtain ⟨dst', hrest, htidy, heffect⟩ := mergeAll_spec hW pairs hκ h hs.right
      have hskip : Effect (W.look dst) (W.look dst) (under k v.values) := .refl _ fun p ↦ by
        cases p with
        | nil => exact not_given_nil
        | cons k' p =>
          rw [under, Node.values_of_isDefined_eq_false (by simpa using hv), ite_self]
          exact not_given_nil
      exact ⟨dst', hrest, htidy, hskip.trans heffect⟩

end

end

/-! ## Many files

One effect after another. -/

variable {files : List Node} {r r' y : Node} {N : Type} {W : Writer N}

theorem get_eq {load : String → Except Halt Node} {names : List String}
    (h : names.map load = files.map .ok) : get W load names = mergeFiles W files := by
  have hfold : ∀ (names : List String) (files : List Node) (result : N),
      names.map load = files.map .ok →
      names.foldlM (fun result fn ↦ do merge W result (← load fn)) result =
        files.foldlM (merge W) result := by
    intro names
    induction names with
    | nil =>
      intro files result h
      obtain rfl : files = [] := by simpa using h.symm
      rfl
    | cons fn names ih =>
      intro files result h
      cases files with
      | nil => cases h
      | cons elem files =>
        rw [List.map_cons, List.map_cons, List.cons.injEq] at h
        rw [List.foldlM_cons, List.foldlM_cons, h.1]
        dsimp only [bind, Except.bind]
        cases merge W result elem with
        | error x => rfl
        | ok result' => exact ih files result' h.2
  exact hfold names files W.null h

/-- The kinds that the files have in common. -/
theorem Compatible.exists_kinds (h : Compatible files) :
    ∃ κ, ∀ f ∈ files, Typed κ f.values := by
  classical
  have hκ : ∀ p, ∃ k, ∀ v ∈ valuesOf files p, v.kind = none ∨ v.kind = some k := by
    intro p
    by_cases hp : ∃ w ∈ valuesOf files p, ∃ k, w.kind = some k
    · obtain ⟨w, hw, k, hk⟩ := hp
      refine ⟨k, fun v hv ↦ ?_⟩
      cases hkind : v.kind with
      | none => exact .inl rfl
      | some a => exact .inr (congrArg some (h p v hv w hw a k hkind hk))
    · refine ⟨.map, fun v hv ↦ .inl (Option.eq_none_iff_forall_ne_some.mpr fun k hk ↦ ?_)⟩
      exact hp ⟨v, hv, k, hk⟩
  choose κ hκ using hκ
  exact ⟨κ, fun f hf p v hv ↦ hκ p v (List.mem_flatMap.mpr ⟨f, hf, hv⟩)⟩

/-- **Merging files** into a tree. -/
theorem foldlM_merge_spec (hW : W.Lawful) (htyped : ∀ f ∈ files, Typed κ f.values) {dst : N}
    (h : Tidy κ (W.look dst)) : ∃ dst', files.foldlM (merge W) dst = .ok dst' ∧
      Tidy κ (W.look dst') ∧ Effect (W.look dst) (W.look dst') (valuesOf files) := by
  induction files generalizing dst with
  | nil => exact ⟨dst, rfl, h, .refl _ fun _ ↦ not_given_nil⟩
  | cons f files ih =>
    obtain ⟨dst', hmerge, htidy, heffect⟩ := merge_spec hW f h (htyped f (by simp))
    obtain ⟨dst'', hfold, htidy', heffect'⟩ := ih (fun g hg ↦ htyped g (by simp [hg])) htidy
    refine ⟨dst'', ?_, htidy', heffect.trans heffect'⟩
    rw [List.foldlM_cons, hmerge]
    exact hfold

theorem tidy_null (κ : List String → Node.Kind) : Tidy κ .null :=
  tidy_leaf (by simp [Node.kind]) ⟨.inl rfl, List.nodup_nil, fun _ _ ↦ rfl⟩

theorem mergeFiles_spec (hW : W.Lawful) (htyped : ∀ f ∈ files, Typed κ f.values) :
    ∃ r, mergeFiles W files = .ok r ∧ Tidy κ (W.look r) ∧
      Effect .null (W.look r) (valuesOf files) := by
  obtain ⟨r, hfold, htidy, heffect⟩ :=
    foldlM_merge_spec hW htyped (hW.null ▸ tidy_null κ : Tidy κ (W.look W.null))
  rw [hW.null] at heffect
  exact ⟨r, hfold, htidy, heffect⟩

/-! ### The result

From effects back to what was asked for.  The tree began with nothing in it, so what is at a path is
what the files gave. -/

theorem isSome_at? {p : List String} : (r.at? p).isSome = true ↔ (r.peek p).isDefined = true := by
  rw [Node.at?]
  split <;> simp_all

theorem at?_of_text {p : List String} {value : String} (h : (r.peek p).text = some value) :
    r.at? p = some (.scalar value) := by
  rw [Node.at?]
  cases hpeek : r.peek p <;> simp_all [Node.text, Node.isDefined]

theorem at?_of_elems {p : List String} (h : (r.peek p).elems ≠ []) :
    r.at? p = some (.seq (r.peek p).elems) := by
  rw [Node.at?]
  cases hpeek : r.peek p <;> simp_all [Node.elems, Node.isDefined]

theorem Effect.null_text (h : Effect .null r vs) (p : List String) :
    (r.peek p).text = (texts (vs p)).getLast? := by
  rw [h.text]
  cases p <;> exact Option.or_none

theorem Effect.null_elems (h : Effect .null r vs) (p : List String) :
    (r.peek p).elems = items (vs p) := by
  rw [h.elems]
  cases p <;> rfl

theorem Effect.null_isDefined (h : Effect .null r vs) {p : List String} (hp : p ≠ []) :
    (r.peek p).isDefined = true ↔ ∃ q, Given (vs (p ++ q)) := by
  rw [h.isDefined, Node.peek.eq_def]
  cases p with
  | nil => exact absurd rfl hp
  | cons k p => simp [Node.isDefined]

/-- **What the merged tree is like.** -/
theorem Effect.merged (h : Effect .null r (valuesOf files)) : Merged files r where
  scalar p value hvalue := at?_of_text ((h.null_text p).trans hvalue)
  seq p hitems := by
    rw [← h.null_elems] at hitems ⊢
    exact at?_of_elems hitems
  map p v hp hgiven hv := by
    have hsome : (r.at? p).isSome = true := by rw [hv]; rfl
    obtain ⟨q, hq⟩ := (h.null_isDefined hp).mp (isSome_at?.mp hsome)
    cases q with
    | nil =>
      rw [List.append_nil] at hq
      exact absurd hq hgiven
    | cons k q =>
      -- there is something further down, so this is a map
      have hbelow : (r.peek (p ++ [k])).isDefined = true :=
        (h.null_isDefined (by simp)).mpr ⟨q, by simpa using hq⟩
      have hpeek : r.peek p = v := by
        rw [Node.at?] at hv
        split at hv
        · exact Option.some_inj.mp hv
        · cases hv
      rw [Node.peek_append, hpeek] at hbelow
      by_contra hkind
      rw [Node.peek_cons_of_kind hkind] at hbelow
      cases hbelow
  present p hp := isSome_at?.trans (h.null_isDefined hp)

/-! ### A merged tree as a file

A merged tree can itself be taken for a file.  It then says what the files have said, and so they
can be grouped in any way. -/

/-- What is defined is in something defined. -/
theorem Tidy.isDefined (h : Tidy κ y) {p : List String} (hp : (y.peek p).isDefined = true) :
    y.isDefined = true := by
  induction p generalizing κ y with
  | nil => rwa [Node.peek_nil] at hp
  | cons k p ih =>
    refine h.root.upward k (ih (h.peek k) ?_)
    rw [← Node.peek_append]
    exact hp

theorem flatMap_find {pairs : List (String × Node)} (h : (pairs.map Prod.fst).Nodup) (k : String)
    (p : List String) :
    (pairs.flatMap fun e ↦ if e.1 = k then e.2.values p else []) =
      (Node.find k pairs).values p := by
  induction pairs with
  | nil => exact (Node.values_of_isDefined_eq_false rfl p).symm
  | cons e pairs ih =>
    obtain ⟨k', v⟩ := e
    rw [List.map_cons, List.nodup_cons] at h
    rw [List.flatMap_cons, ih h.2, Node.find]
    dsimp only
    split
    · rename_i hk
      rw [Node.find_of_notMem (hk ▸ h.1), Node.values_of_isDefined_eq_false (n := undefined) rfl,
        List.append_nil]
    · rfl

/-- What is seen at a path of a merged tree is the one node that is there. -/
theorem Tidy.values (h : Tidy κ y) (p : List String) :
    y.values p = if (y.peek p).isDefined then [y.peek p] else [] := by
  induction p generalizing κ y with
  | nil => rw [Node.peek_nil, Node.values.eq_def]
  | cons k p ih =>
    cases y with
    | map defined pairs =>
      cases defined with
      | false =>
        rw [if_neg fun hp ↦ by cases h.isDefined hp]
        rfl
      | true =>
        rw [Node.values, flatMap_find h.root.nodup]
        exact ih (h.peek k)
    | _ => rfl

theorem Tidy.texts_values (h : Tidy κ y) (p : List String) :
    texts (y.values p) = (y.peek p).text.toList := by
  rw [h.values]
  cases hpeek : y.peek p with
  | map defined pairs => cases defined <;> rfl
  | _ => rfl

theorem Tidy.items_values (h : Tidy κ y) (p : List String) :
    items (y.values p) = (y.peek p).elems := by
  rw [h.values]
  cases hpeek : y.peek p with
  | map defined pairs => cases defined <;> rfl
  | _ => simp [items, Node.isDefined, Node.elems]

/-- Trees that have the same said of a path, and of what is below it, are alike there. -/
theorem Effect.alikeAt {p : List String} (h : Effect .null r vs) (h' : Effect .null r' ws)
    (htexts : (texts (vs p)).getLast? = (texts (ws p)).getLast?)
    (hitems : items (vs p) = items (ws p))
    (hgiven : ∀ q, Given (vs (p ++ q)) ↔ Given (ws (p ++ q))) : AlikeAt r r' p where
  text := by rw [h.null_text, h'.null_text, htexts]
  elems := by rw [h.null_elems, h'.null_elems, hitems]
  present hp := by
    rw [isSome_at?, isSome_at?, h.null_isDefined hp, h'.null_isDefined hp]
    exact exists_congr hgiven

theorem given_iff {vs : List Node} : Given vs ↔ (texts vs).getLast? ≠ none ∨ items vs ≠ [] := by
  rw [Given, ne_eq, ne_eq (a := (texts vs).getLast?), List.getLast?_eq_none_iff]

/-- **Files can be merged among themselves first.** -/
theorem mergeFiles_regroup (hW : W.Lawful) {xs ys zs : List Node}
    (htyped : ∀ f ∈ xs ++ ys ++ zs, Typed κ f.values) {r : Node}
    (hr : Effect .null r (valuesOf (xs ++ ys ++ zs))) :
    ∃ y r', mergeFiles W ys = .ok y ∧ mergeFiles W (xs ++ W.look y :: zs) = .ok r' ∧
      ∀ p, AlikeAt r (W.look r') p := by
  obtain ⟨y, hmerge, htidy, hy⟩ :=
    mergeFiles_spec hW fun f hf ↦ htyped f (by simp only [List.mem_append]; exact .inl (.inr hf))
  have htyped' : ∀ f ∈ xs ++ W.look y :: zs, Typed κ f.values := by
    intro f hf
    rw [List.mem_append, List.mem_cons] at hf
    rcases hf with hf | rfl | hf
    · exact htyped f (by simp [hf])
    · intro p v hv
      rw [htidy.values] at hv
      split at hv
      · obtain rfl := List.mem_singleton.mp hv
        exact (htidy p).kind
      · cases hv
    · exact htyped f (by simp [hf])
  obtain ⟨r', hmerge', -, hr'⟩ := mergeFiles_spec hW htyped'
  -- `y` says of each path what the files in the middle come to
  have htexts : ∀ p, (texts (valuesOf (xs ++ ys ++ zs) p)).getLast? =
      (texts (valuesOf (xs ++ W.look y :: zs) p)).getLast? := by
    intro p
    simp only [valuesOf, List.flatMap_append, List.flatMap_cons, texts_append, htidy.texts_values,
      hy.null_text, List.getLast?_append]
    cases (texts (List.flatMap (·.values p) ys)).getLast? <;> simp
  have hitems : ∀ p, items (valuesOf (xs ++ ys ++ zs) p) =
      items (valuesOf (xs ++ W.look y :: zs) p) := by
    intro p
    simp only [valuesOf, List.flatMap_append, List.flatMap_cons, items_append, htidy.items_values,
      hy.null_elems, List.append_assoc]
  refine ⟨y, r', hmerge, hmerge', fun p ↦ hr.alikeAt hr' (htexts p) (hitems p) fun q ↦ ?_⟩
  rw [given_iff, given_iff, htexts, hitems]

/-- What a file does not mention, it says nothing of further down. -/
theorem values_append_eq_nil {f : Node} {p : List String} (h : f.values p = []) (q : List String) :
    f.values (p ++ q) = [] := by
  induction p generalizing f with
  | nil =>
    refine Node.values_of_isDefined_eq_false ?_ _
    rw [Node.values.eq_def] at h
    dsimp only at h
    split at h
    · cases h
    · simp_all
  | cons k p ih =>
    cases f with
    | map defined pairs =>
      cases defined with
      | false => rfl
      | true =>
        rw [Node.values, List.flatMap_eq_nil_iff] at h
        rw [List.cons_append, Node.values, List.flatMap_eq_nil_iff]
        intro e he
        have hv := h e he
        split
        · rename_i hk
          rw [if_pos hk] at hv
          exact ih hv
        · rfl
    | _ => rfl

/-- **A path that the last file does not mention** is left as it is. -/
theorem mergeFiles_frame (hW : W.Lawful) {xs : List Node} {f : Node}
    (htyped : ∀ g ∈ xs ++ [f], Typed κ g.values) {p : List String} (hf : f.values p = [])
    {r : Node} (hr : Effect .null r (valuesOf (xs ++ [f]))) :
    ∃ r', mergeFiles W xs = .ok r' ∧ ∀ q, AlikeAt r (W.look r') (p ++ q) := by
  obtain ⟨r', hmerge, -, hr'⟩ :=
    mergeFiles_spec hW fun g hg ↦ htyped g (List.mem_append_left [f] hg)
  have hvalues : ∀ q, valuesOf (xs ++ [f]) (p ++ q) = valuesOf xs (p ++ q) := by
    intro q
    simp [valuesOf, values_append_eq_nil hf]
  refine ⟨r', hmerge, fun q ↦ hr.alikeAt hr' (by rw [hvalues]) (by rw [hvalues]) fun q' ↦ ?_⟩
  rw [List.append_assoc, hvalues]

/-- **Merging configuration files**: the last scalar stands, sequences are concatenated, and a key
is there if any file has a scalar or an element at it or below it.  Files can be merged among
themselves first, and what the last one does not mention is left as it is. -/
theorem get_merges (hW : W.Lawful) {load : String → Except Halt Node} {names : List String}
    (hload : names.map load = files.map .ok) (h : Compatible files) :
    ∃ r, get W load names = .ok r ∧ Merged files (W.look r) ∧
      (∀ xs ys zs, files = xs ++ ys ++ zs → ∃ y r', mergeFiles W ys = .ok y ∧
        mergeFiles W (xs ++ W.look y :: zs) = .ok r' ∧ ∀ p, AlikeAt (W.look r) (W.look r') p) ∧
      ∀ xs f p, files = xs ++ [f] → f.values p = [] →
        ∃ r', mergeFiles W xs = .ok r' ∧ ∀ q, AlikeAt (W.look r) (W.look r') (p ++ q) := by
  obtain ⟨κ, htyped⟩ := h.exists_kinds
  obtain ⟨r, hmerge, -, hr⟩ := mergeFiles_spec hW htyped
  refine ⟨r, (get_eq hload).trans hmerge, hr.merged, ?_, ?_⟩
  · rintro xs ys zs rfl
    exact mergeFiles_regroup hW htyped hr
  · rintro xs f p rfl hf
    exact mergeFiles_frame hW htyped hf hr

/-- Files that are of the same kinds are compatible. -/
theorem compatible_of_typed (h : ∀ f ∈ files, Typed κ f.values) : Compatible files := by
  intro p v hv w hw a b ha hb
  obtain ⟨f, hf, hvf⟩ := List.mem_flatMap.mp hv
  obtain ⟨g, hg, hwg⟩ := List.mem_flatMap.mp hw
  have hva := h f hf p v hvf
  have hwb := h g hg p w hwg
  simp_all

/-- A file with a scalar and a sequence of one. -/
def scalarAndSeq (value elem : String) : Node :=
  .map true [("a", .scalar value), ("l", .seq [.scalar elem])]

theorem typed_scalarAndSeq (value elem : String) :
    Typed (fun | [] => .map | k :: _ => if k = "a" then .scalar else .seq)
      (scalarAndSeq value elem).values := by
  intro p v hv
  rcases p with _ | ⟨k, _ | ⟨k', p⟩⟩
  · obtain rfl : v = scalarAndSeq value elem := by
      simpa [scalarAndSeq, Node.values, Node.isDefined] using hv
    exact .inr rfl
  · by_cases ha : k = "a"
    · subst ha
      obtain rfl : v = .scalar value := by
        simpa [scalarAndSeq, Node.values, Node.isDefined] using hv
      exact .inr rfl
    · have hl : "l" = k ∧ v = .seq [.scalar elem] := by
        simpa [scalarAndSeq, Node.values, Node.isDefined, Ne.symm ha] using hv
      obtain ⟨rfl, rfl⟩ := hl
      exact .inr rfl
  · simp [scalarAndSeq, Node.values] at hv

/-- The second file overrides the scalar, and adds to the sequence. -/
theorem get_merges_two : ∃ r,
    get Node.writer (fun fn ↦ .ok (scalarAndSeq fn fn)) ["1", "2"] = .ok r ∧
      r.at? ["a"] = some (.scalar "2") ∧
      r.at? ["l"] = some (.seq [.scalar "1", .scalar "2"]) := by
  have hcompatible : Compatible [scalarAndSeq "1" "1", scalarAndSeq "2" "2"] :=
    compatible_of_typed fun f hf ↦ by
      simp only [List.mem_cons, List.not_mem_nil, or_false] at hf
      rcases hf with rfl | rfl <;> exact typed_scalarAndSeq _ _
  have hload : ["1", "2"].map (fun fn ↦ (.ok (scalarAndSeq fn fn) : Except Halt Node)) =
      [scalarAndSeq "1" "1", scalarAndSeq "2" "2"].map .ok := rfl
  obtain ⟨r, hget, hmerged, -⟩ := get_merges Node.writer_lawful hload hcompatible
  have hitems : items (valuesOf [scalarAndSeq "1" "1", scalarAndSeq "2" "2"] ["l"]) =
      [.scalar "1", .scalar "2"] := rfl
  refine ⟨r, hget, hmerged.scalar ["a"] "2" (by decide), ?_⟩
  rw [← hitems]
  exact hmerged.seq ["l"] (by simp [hitems])

/-- A file with a key and an empty map there. -/
def emptyMap : Node := .map true [("a", .map true [])]

theorem typed_emptyMap : Typed (fun _ ↦ .map) emptyMap.values := by
  intro p v hv
  rcases p with _ | ⟨k, _ | ⟨k', p⟩⟩
  · obtain rfl := List.mem_singleton.mp hv
    exact .inr rfl
  · have hk : "a" = k ∧ v = .map true [] := by
      simpa [emptyMap, Node.values, Node.isDefined] using hv
    exact .inr (hk.2 ▸ rfl)
  · simp [emptyMap, Node.values] at hv

/-- Whatever it is that is written to, the key is not in the result. -/
theorem lost_emptyMap (hW : W.Lawful) : ∃ r, mergeFiles W [emptyMap] = .ok r ∧
    (W.look r).at? ["a"] = none := by
  have htyped : ∀ f ∈ [emptyMap], Typed (fun _ ↦ .map) f.values := fun f hf ↦
    List.mem_singleton.mp hf ▸ typed_emptyMap
  obtain ⟨r, hmerge, -, hr⟩ := mergeFiles_spec hW htyped
  refine ⟨r, hmerge, ?_⟩
  rw [← Option.not_isSome_iff_eq_none, isSome_at?, hr.null_isDefined (by simp)]
  rintro ⟨q, hq⟩
  cases q <;> simp [Given, texts, items, valuesOf, emptyMap, Node.values, Node.isDefined,
    Node.text, Node.elems] at hq

/-- A key that a file has, with an empty map, is not in the result. -/
theorem empty_map_is_lost : (∃ (N : Type) (W : Writer N), W.Lawful) ∧
    ∀ (N : Type) (W : Writer N), W.Lawful → ¬ ∀ files r, Compatible files →
      mergeFiles W files = .ok r → ∀ p, (∃ v ∈ valuesOf files p, v.kind ≠ none) →
        ((W.look r).at? p).isSome := by
  refine ⟨⟨Node, Node.writer, Node.writer_lawful⟩, fun N W hW hall ↦ ?_⟩
  obtain ⟨r, hmerge, hlost⟩ := lost_emptyMap hW
  have htyped : ∀ f ∈ [emptyMap], Typed (fun _ ↦ .map) f.values := fun f hf ↦
    List.mem_singleton.mp hf ▸ typed_emptyMap
  have hpresent := hall [emptyMap] r (compatible_of_typed htyped) hmerge ["a"] ⟨.map true [],
    by simp [valuesOf, emptyMap, Node.values, Node.isDefined], by simp [Node.kind]⟩
  rw [hlost] at hpresent
  cases hpresent

end Config
end UdpTun
