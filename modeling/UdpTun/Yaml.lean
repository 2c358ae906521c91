import UdpTun.Halt
import Mathlib.Data.List.Nodup

/-!
# YAML nodes

`Node` is a tree of YAML, less aliases, tags and marks, with scalars for the keys of a map.  It is
what can be read of a `YAML::Node`.  A path is a list of keys.  `Node.peek` is what there is at a
path, be it undefined, and `Node.at?` what there is to be seen.  A map that is read from a file can
have a key more than once, so there is also `Node.values`, of all that there is at a path.

A `YAML::Node` that is written to is the library's own affair.  `Node.Writer` is what it offers for
that, over any type of nodes, and `Writer.Lawful` what is relied on: that a handle got by
subscripting is of what is at the key, that what is written through it is there then, and that
elements are appended.  `Node.writer` is one that is lawful, in which the nodes are trees.
-/

set_option autoImplicit false

namespace UdpTun

/-- What can be read of a `YAML::Node`.  `undefined` is what there is at a key that is not there,
and a map that was that, and has been subscripted, is not `defined` either. -/
inductive Node
  | undefined
  | null
  | scalar (value : String)
  | seq (elems : List Node)
  | map (defined : Bool) (pairs : List (String × Node))

namespace Node

/-- `IsDefined`. -/
def isDefined : Node → Bool
  | undefined => false
  | map defined _ => defined
  | _ => true

/-! ## Reading

Iterators pass over what is undefined, and so does `at?`. -/

/-- The node at a key. -/
def find (k : String) : List (String × Node) → Node
  | [] => undefined
  | (k', v) :: pairs => if k' = k then v else find k pairs

/-- What is at a path. -/
def peek : Node → List String → Node
  | n, [] => n
  | map _ pairs, k :: p => (find k pairs).peek p
  | _, _ :: _ => undefined

/-- What is to be seen at a path. -/
def at? (n : Node) (p : List String) : Option Node :=
  if (n.peek p).isDefined then some (n.peek p) else none

/-- All that is to be seen at a path. -/
def values : Node → List String → List Node
  | n, [] => if n.isDefined then [n] else []
  | map true pairs, k :: p => pairs.flatMap fun e ↦ if e.1 = k then e.2.values p else []
  | _, _ :: _ => []

/-- The text of a scalar. -/
def text : Node → Option String
  | scalar value => some value
  | _ => none

/-- The elements of a sequence. -/
def elems : Node → List Node
  | seq elems => elems
  | _ => []

/-- The keys of a map, those included at which nothing is defined. -/
def keys : Node → List String
  | map _ pairs => pairs.map Prod.fst
  | _ => []

/-- What a node can be, unless it is nothing yet. -/
inductive Kind
  | scalar
  | seq
  | map
  deriving DecidableEq

def kind : Node → Option Kind
  | undefined => none
  | null => none
  | scalar _ => some .scalar
  | seq _ => some .seq
  | map _ _ => some .map

@[simp] theorem peek_nil (n : Node) : n.peek [] = n := by
  cases n <;> rfl

@[simp] theorem peek_map (defined : Bool) (pairs : List (String × Node)) (k : String)
    (p : List String) : (map defined pairs).peek (k :: p) = (find k pairs).peek p := rfl

@[simp] theorem peek_undefined (p : List String) : undefined.peek p = undefined := by
  cases p <;> rfl

theorem peek_cons_of_kind {n : Node} (h : n.kind ≠ some .map) (k : String) (p : List String) :
    n.peek (k :: p) = undefined := by
  cases n with
  | map => simp [kind] at h
  | _ => rfl

theorem values_of_isDefined_eq_false {n : Node} (h : n.isDefined = false) (p : List String) :
    n.values p = [] := by
  cases n with
  | undefined => cases p <;> rfl
  | map defined pairs =>
    obtain rfl : defined = false := h
    cases p <;> rfl
  | _ => cases h

theorem peek_append (n : Node) (p q : List String) : n.peek (p ++ q) = (n.peek p).peek q := by
  induction p generalizing n with
  | nil => rw [List.nil_append, peek_nil]
  | cons k p ih =>
    cases n with
    | map defined pairs => exact ih _
    | _ => exact (peek_undefined q).symm

theorem peek_cons (n : Node) (k : String) (p : List String) :
    n.peek (k :: p) = (n.peek [k]).peek p := peek_append n [k] p

/-! ## Writing

The operations of the library are a parameter, since the library is not at hand; the laws are what
its documentation says of them.  A new node is null.  Whatever is null or not there becomes a map
when it is subscripted, and a sequence when something is appended.  A key is there as soon as
something that is defined has been put at it, and subscripting alone does not put it there. -/

/-- What can be done with nodes that can be written to. -/
structure Writer (N : Type) where
  /-- A new node. -/
  null : N
  /-- `operator =`. -/
  assign : N → Node → N
  pushBack : N → Node → Except Halt N
  /-- `operator []`: what becomes of the node, and the node that there is a handle of then. -/
  subscript : N → String → Except Halt (N × N)
  /-- What becomes of a node that has been subscripted, when the other one has been written to. -/
  put : N → String → N → N
  /-- What can be read of it. -/
  look : N → Node

/-- What can be subscripted, and is a map from then on. -/
def Subscriptable (n : Node) : Prop := n.kind = none ∨ n.kind = some .map

/-- `n'` is `n` with `v` at a key.  What is at the other keys is left alone, and a node that is
defined makes the map defined. -/
structure Written (n : Node) (k : String) (v n' : Node) : Prop where
  kind : n'.kind = some .map
  nodup : n'.keys.Nodup
  isDefined : n'.isDefined = (n.isDefined || v.isDefined)
  peek : ∀ k' p, n'.peek (k' :: p) = if k' = k then v.peek p else n.peek (k' :: p)

namespace Writer

variable {N : Type} {W : Writer N}

/-- What is relied on. -/
structure Lawful (W : Writer N) : Prop where
  null : W.look W.null = .null
  assign : ∀ n v, W.look (W.assign n v) = v
  /-- `push_back` appends. -/
  push_back : ∀ n v, (W.look n).kind = none ∨ (W.look n).kind = some .seq →
    ∃ n', W.pushBack n v = .ok n' ∧ W.look n' = .seq ((W.look n).elems ++ [v])
  /-- The handle is of what is at the key. -/
  subscript : ∀ n k, (W.look n).Subscriptable →
    ∃ r, W.subscript n k = .ok r ∧ W.look r.2 = (W.look n).peek [k]
  /-- What is written through the handle can be seen at the key. -/
  put : ∀ n k r v, (W.look n).Subscriptable → (W.look n).keys.Nodup → W.subscript n k = .ok r →
    Written (W.look n) k (W.look v) (W.look (W.put r.1 k v))

/-- **Elements are appended** to a sequence, or to what is nothing yet. -/
theorem Lawful.foldlM_pushBack (h : W.Lawful) {n : N}
    (hn : (W.look n).kind = none ∨ (W.look n).kind = some .seq) (l : List Node) :
    ∃ n', l.foldlM W.pushBack n = .ok n' ∧
      W.look n' = if l = [] then W.look n else .seq ((W.look n).elems ++ l) := by
  induction l generalizing n with
  | nil => exact ⟨n, rfl, rfl⟩
  | cons v l ih =>
    obtain ⟨n₁, hpush, hlook₁⟩ := h.push_back n v hn
    obtain ⟨n', hfold, hlook⟩ := ih (n := n₁) (by rw [hlook₁]; exact .inr rfl)
    refine ⟨n', by rw [List.foldlM_cons, hpush]; exact hfold, ?_⟩
    rw [hlook, hlook₁, if_neg (List.cons_ne_nil v l), elems, List.append_assoc]
    split
    · rename_i hl
      rw [hl]
    · rfl

end Writer

/-! ## Trees that are written to

To subscript a tree makes a place for the key, with nothing defined in it.  Something is defined
there when it is assigned to it or appended to it, and all that it is in becomes defined with it. -/

/-- The pairs of a map, with a place for a key. -/
def place (k : String) (pairs : List (String × Node)) : List (String × Node) :=
  if k ∈ pairs.map Prod.fst then pairs else pairs ++ [(k, undefined)]

/-- The node at a key becomes another. -/
def change (k : String) (v : Node) : List (String × Node) → List (String × Node)
  | [] => []
  | (k', v') :: pairs => if k' = k then (k', v) :: pairs else (k', v') :: change k v pairs

/-- A sequence that becomes a map. -/
def indexed (elems : List Node) : List (String × Node) :=
  elems.zipIdx.map fun e ↦ (toString e.2, e.1)

/-- What becomes of a tree that is subscripted, and the one there. -/
def subscript (n : Node) (k : String) : Except Halt (Node × Node) :=
  match n with
  | undefined => .ok (map false [(k, undefined)], undefined)
  | null => .ok (map true [(k, undefined)], undefined)
  | scalar _ => .error (.exception (.library "YAML::Node::operator[]"))
  | seq elems => .ok (map true (place k (indexed elems)), find k (indexed elems))
  | map defined pairs => .ok (map defined (place k pairs), find k pairs)

/-- What becomes of a tree when the one at a key of it changes. -/
def put (n : Node) (k : String) (v : Node) : Node :=
  match n with
  | map defined pairs => map (defined || v.isDefined) (change k v pairs)
  | _ => n

/-- An element is appended. -/
def pushBack (n v : Node) : Except Halt Node :=
  match n with
  | undefined => .ok (seq [v])
  | null => .ok (seq [v])
  | seq elems => .ok (seq (elems ++ [v]))
  | _ => .error (.exception (.library "YAML::Node::push_back"))

theorem find_append (k : String) (l l' : List (String × Node)) :
    find k (l ++ l') = if k ∈ l.map Prod.fst then find k l else find k l' := by
  induction l with
  | nil => rfl
  | cons e l ih =>
    obtain ⟨k', v⟩ := e
    rw [List.cons_append, find, find, ih]
    by_cases hk : k' = k
    · simp [hk]
    · simp only [if_neg hk, List.map_cons, List.mem_cons, Ne.symm hk, false_or]

theorem find_of_notMem {k : String} {pairs : List (String × Node)}
    (h : k ∉ pairs.map Prod.fst) : find k pairs = undefined := by
  have happend := find_append k pairs []
  rwa [List.append_nil, if_neg h] at happend

theorem mem_place (k : String) (pairs : List (String × Node)) :
    k ∈ (place k pairs).map Prod.fst := by
  rw [place]
  split
  · assumption
  · simp

/-- A place with nothing in it makes no difference. -/
theorem find_place (k k' : String) (pairs : List (String × Node)) :
    find k' (place k pairs) = find k' pairs := by
  rw [place]
  split
  · rfl
  · rw [find_append]
    split
    · rfl
    · rename_i hk'
      rw [find_of_notMem hk', find, find, ite_self]

theorem nodup_place (k : String) {pairs : List (String × Node)}
    (h : (pairs.map Prod.fst).Nodup) : ((place k pairs).map Prod.fst).Nodup := by
  rw [place]
  split
  · exact h
  · rename_i hk
    rw [List.map_append]
    refine List.nodup_append.mpr ⟨h, by simp, ?_⟩
    rintro a ha b hb rfl
    obtain rfl : a = k := by simpa using hb
    exact hk ha

theorem map_fst_change (k : String) (v : Node) (pairs : List (String × Node)) :
    (change k v pairs).map Prod.fst = pairs.map Prod.fst := by
  induction pairs with
  | nil => rfl
  | cons e pairs ih =>
    obtain ⟨k', v'⟩ := e
    rw [change]
    split
    · rfl
    · rw [List.map_cons, List.map_cons, ih]

theorem find_change {k : String} {pairs : List (String × Node)} (h : k ∈ pairs.map Prod.fst)
    (v : Node) (k' : String) :
    find k' (change k v pairs) = if k' = k then v else find k' pairs := by
  induction pairs with
  | nil => cases h
  | cons e pairs ih =>
    obtain ⟨k₁, v₁⟩ := e
    rw [change]
    by_cases hk : k₁ = k
    · rw [if_pos hk, find, find, hk]
      simp only [eq_comm (a := k')]
      split <;> rfl
    · rw [if_neg hk, find, find, ih (by simpa [Ne.symm hk] using h)]
      by_cases hk' : k' = k
      · rw [if_pos hk', if_pos hk', hk', if_neg hk]
      · rw [if_neg hk', if_neg hk']

/-- `Node`, with what has been done to it. -/
def writer : Writer Node where
  null := null
  assign _ v := v
  pushBack := pushBack
  subscript := subscript
  put := put
  look := id

theorem subscript_ok {n : Node} (hn : n.Subscriptable) (k : String) :
    ∃ r, n.subscript k = .ok r ∧ r.2 = n.peek [k] := by
  rcases hn with hn | hn <;> cases n <;> first | exact ⟨_, rfl, rfl⟩ | cases hn

/-- What is nothing yet becomes a map with one place. -/
theorem written_one {n : Node} (hn : n.kind = none) (k : String) (v : Node) :
    Written n k v ((map n.isDefined [(k, undefined)]).put k v) := by
  refine ⟨rfl, by simp [put, keys, map_fst_change], rfl, fun k' p ↦ ?_⟩
  have hnone : n.peek (k' :: p) = undefined := peek_cons_of_kind (by simp [hn]) k' p
  rw [put, peek_map, find_change (by simp), hnone]
  split
  · rfl
  · rw [find, find, ite_self, peek_undefined]

/-- **A node is put at a key**, of something that is a map or nothing yet. -/
theorem written_put {n : Node} (hn : n.Subscriptable) (hnodup : n.keys.Nodup) {k : String}
    {r : Node × Node} (hr : n.subscript k = .ok r) (v : Node) : Written n k v (r.1.put k v) := by
  cases n with
  | undefined =>
    cases hr
    exact written_one rfl k v
  | null =>
    cases hr
    exact written_one rfl k v
  | map defined pairs =>
    cases hr
    refine ⟨rfl, ?_, rfl, fun k' p ↦ ?_⟩
    · rw [put, keys, map_fst_change]
      exact nodup_place k hnodup
    · rw [put, peek_map, find_change (mem_place k pairs), find_place]
      split <;> rfl
  | scalar value => rcases hn with hn | hn <;> cases hn
  | seq elems => rcases hn with hn | hn <;> cases hn

theorem writer_lawful : writer.Lawful where
  null := rfl
  assign _ _ := rfl
  push_back n v hn := by
    rcases hn with hn | hn <;> cases n <;> first | exact ⟨_, rfl, rfl⟩ | cases hn
  subscript _ k hn := subscript_ok hn k
  put _ _ _ v hn hnodup hr := written_put hn hnodup hr v

end Node
end UdpTun
