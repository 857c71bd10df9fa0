import Mathlib.Data.List.Infix
import Mathlib.Data.Nat.Notation
import TensorResize.Operator.Argument
import TensorResize.Operator.Registry
import TensorResize.Proofs.Sequencing

/-!
# Growing graphs

A graph only grows: a call puts one node behind those that are there. What is known of a node stays
true from then on, its constant too, since a node is folded by looking at earlier nodes only.

Calls are made one after the other here, and a call that cannot be made leaves the nodes of those
before it behind. A program of which every call can be made is appended as a whole.

## Main definitions

* `Graph.GrowsTo` — every node is still there.
* `Graph.pushAll` — several nodes added.
* `Graph.perform` — calls made one after the other.
* `Graph.Appends` — a program of which every call can be made.
-/

namespace TensorResize

variable {g g' g'' : Graph} {n : Node} {id : NodeId} {call : Call NodeId}
  {calls more : List (Call NodeId)}

namespace Graph

/-- Every node of `g` is a node of `g'`, unchanged and with the same id. -/
def GrowsTo (g g' : Graph) : Prop := g.nodes.toList <+: g'.nodes.toList

theorem getElem?_push (g : Graph) (n : Node) (id : NodeId) :
    (g.push n).nodes[id]? = if id = g.size then some n else g.nodes[id]? := Array.getElem?_push

@[simp] theorem inputs_push (g : Graph) (n : Node) : (g.push n).inputs = g.inputs := rfl

theorem getElem?_push_self (g : Graph) (n : Node) : (g.push n).nodes[g.size]? = some n := by
  rw [getElem?_push, if_pos rfl]

/-- What holds of all nodes once one is added holds of those before and of the new one. -/
theorem forall_getElem?_push {P : NodeId → Node → Prop} :
    (∀ id m, (g.push n).nodes[id]? = some m → P id m) ↔
      (∀ id m, g.nodes[id]? = some m → P id m) ∧ P g.size n := by
  simp only [getElem?_push]
  constructor
  · intro h
    refine ⟨?_, h g.size n (if_pos rfl)⟩
    intro id m hm
    have hid : id < g.size := (Array.getElem?_eq_some_iff.1 hm).1
    exact h id m ((if_neg hid.ne).trans hm)
  · rintro ⟨hold, hnew⟩ id m hm
    split at hm
    · next hid =>
      cases hm
      rwa [hid]
    · exact hold id m hm

theorem lt_size_of_getElem? (h : g.nodes[id]? = some n) : id < g.size :=
  (Array.getElem?_eq_some_iff.1 h).1

theorem exists_getElem? (h : id < g.size) : ∃ n, g.nodes[id]? = some n :=
  ⟨_, Array.getElem?_eq_getElem h⟩

theorem node_eq_ok : g.node id = .ok n ↔ g.nodes[id]? = some n := by
  rw [node]
  cases g.nodes[id]? with
  | none => simp
  | some m => simp

theorem shape_of_getElem? (h : g.nodes[id]? = some n) : g.shape id = .ok n.shape := by
  rw [shape, node_eq_ok.2 h]
  rfl

namespace GrowsTo

theorem refl (g : Graph) : g.GrowsTo g := List.prefix_rfl

theorem trans (h : g.GrowsTo g') (h' : g'.GrowsTo g'') : g.GrowsTo g'' := List.IsPrefix.trans h h'

theorem push (g : Graph) (n : Node) : g.GrowsTo (g.push n) := by
  rw [GrowsTo, Graph.push, Array.toList_push]
  exact List.prefix_append _ _

theorem addInput (g : Graph) (shape : Shape) : g.GrowsTo (g.addInput shape) := push g _

theorem getElem?_eq (h : g.GrowsTo g') (hid : id < g.size) : g'.nodes[id]? = g.nodes[id]? := by
  obtain ⟨added, hadded⟩ := h
  rw [← Array.getElem?_toList, ← hadded, List.getElem?_append_left (by simpa [size] using hid),
    Array.getElem?_toList]

theorem getElem? (h : g.GrowsTo g') (hn : g.nodes[id]? = some n) : g'.nodes[id]? = some n :=
  (h.getElem?_eq (lt_size_of_getElem? hn)).trans hn

/-- A node folds to the same constant from then on. -/
theorem constant?_eq (h : g.GrowsTo g') (hid : id < g.size) : g'.constant? id = g.constant? id := by
  -- a reshape is folded through its source, which is an earlier node
  induction id using Nat.strong_induction_on with
  | _ id ih =>
    rw [constant?, constant?, h.getElem?_eq hid]
    split
    · rfl
    · next source _ _ _ =>
      by_cases hlt : source < id
      · rw [if_pos hlt, if_pos hlt, ih source hlt (hlt.trans hid)]
      · rw [if_neg hlt, if_neg hlt]
    · rfl

/-- The snapshot of a node is the same from then on. -/
theorem argument_eq (h : g.GrowsTo g') (hid : id < g.size) : g'.argument id = g.argument id := by
  have hnode : g'.node id = g.node id := by rw [node, node, h.getElem?_eq hid]
  rw [argument, argument, hnode, h.constant?_eq hid]

end GrowsTo

/-- The graph with some nodes added, the first one first. -/
def pushAll (g : Graph) (nodes : List Node) : Graph := nodes.foldl push g

theorem growsTo_pushAll (g : Graph) (nodes : List Node) : g.GrowsTo (g.pushAll nodes) := by
  induction nodes generalizing g with
  | nil => exact .refl g
  | cons n nodes ih => exact (GrowsTo.push g n).trans (ih (g.push n))

theorem getElem?_pushAll (g : Graph) (nodes : List Node) (k : ℕ) :
    (g.pushAll nodes).nodes[g.size + k]? = nodes[k]? := by
  induction nodes generalizing g k with
  | nil => simp [pushAll, size]
  | cons n nodes ih =>
    cases k with
    | zero => exact (growsTo_pushAll (g.push n) nodes).getElem? (getElem?_push_self g n)
    | succ k =>
      have hnext := ih (g.push n) k
      rw [size_push, Nat.add_right_comm, Nat.add_assoc] at hnext
      exact hnext

@[simp] theorem size_pushAll (g : Graph) (nodes : List Node) :
    (g.pushAll nodes).size = g.size + nodes.length := by
  induction nodes generalizing g with
  | nil => rfl
  | cons n nodes ih =>
    have hrest := ih (g.push n)
    rw [size_push, Nat.add_right_comm] at hrest
    exact hrest

/-! ## Snapshots -/

variable {a : Argument} {args : List Argument} {ids : List NodeId}

theorem argument_eq_ok :
    g.argument id = .ok a ↔
      ∃ n, g.nodes[id]? = some n ∧ ⟨id, n.shape, n.kind = .undefined, g.constant? id⟩ = a := by
  simp only [argument, bind_eq_ok, node_eq_ok, pure_eq_ok]

theorem arguments_cons_eq_ok :
    g.arguments (id :: ids) = .ok args ↔
      ∃ a, g.argument id = .ok a ∧ ∃ rest, g.arguments ids = .ok rest ∧ a :: rest = args := by
  simp only [arguments, List.mapM_cons, bind_eq_ok, pure_eq_ok]

/-- Nodes that are there have snapshots. -/
theorem exists_arguments (h : ∀ id ∈ ids, id < g.size) : ∃ args, g.arguments ids = .ok args := by
  induction ids with
  | nil => exact ⟨[], rfl⟩
  | cons id ids ih =>
    obtain ⟨n, hn⟩ := exists_getElem? (h id (List.mem_cons_self ..))
    obtain ⟨rest, hrest⟩ := ih fun id hid => h id (List.mem_cons_of_mem _ hid)
    exact ⟨_, arguments_cons_eq_ok.2 ⟨_, argument_eq_ok.2 ⟨n, hn, rfl⟩, rest, hrest, rfl⟩⟩

/-- The first snapshot is that of the first node. -/
theorem head?_of_arguments (h : g.arguments ids = .ok args) (ha : args.head? = some a) :
    ids.head? = some a.id ∧ ∃ n, g.nodes[a.id]? = some n ∧ n.shape = a.shape := by
  cases ids with
  | nil =>
    cases h
    cases ha
  | cons id ids =>
    obtain ⟨first, hfirst, rest, -, rfl⟩ := arguments_cons_eq_ok.1 h
    obtain rfl : first = a := by simpa using ha
    obtain ⟨n, hn, rfl⟩ := argument_eq_ok.1 hfirst
    exact ⟨rfl, n, hn, rfl⟩

/-- Every snapshot is that of a node. -/
theorem lt_size_of_arguments (h : g.arguments ids = .ok args) (ha : a ∈ args) : a.id < g.size := by
  induction ids generalizing args with
  | nil =>
    cases h
    cases ha
  | cons id ids ih =>
    obtain ⟨first, hfirst, rest, hrest, rfl⟩ := arguments_cons_eq_ok.1 h
    rcases List.mem_cons.1 ha with rfl | ha
    · obtain ⟨n, hn, rfl⟩ := argument_eq_ok.1 hfirst
      exact lt_size_of_getElem? hn
    · exact ih hrest ha

end Graph

/-! ## Calls -/

/-- The kind of node that a call adds. -/
def Call.kind : Call NodeId → NodeKind
  | literal value => .literal value
  | instruction operation _ => .instruction operation

theorem Call.kind_ne_input (c : Call NodeId) : c.kind ≠ .input := by
  cases c with
  | literal value => exact nofun
  | instruction operation inputs => exact nofun

namespace Graph

/-- The shape of the node that a call adds. -/
def callShape (g : Graph) : Call NodeId → Except GraphFault Shape
  | .literal value => .ok value.shape
  | .instruction operation inputs => g.inferShape operation inputs

/-- A call adds a node of its kind that reads its inputs, if the shape of that node can be
inferred. -/
theorem add_eq_ok :
    g.add call = .ok g' ↔
      ∃ shape, g.callShape call = .ok shape ∧ g.push ⟨call.kind, call.inputs, shape⟩ = g' := by
  cases call with
  | literal value => simp [add, addLiteral, callShape, Call.kind, Call.inputs]
  | instruction operation inputs =>
    simp only [add, addInstruction, bind_eq_ok, pure_eq_ok, callShape, Call.kind, Call.inputs]

/-- The graph after calls made one after the other. The first call that cannot be made ends them;
the nodes added before it stay. -/
def perform (g : Graph) : List (Call NodeId) → Graph × Option GraphFault
  | [] => (g, none)
  | call :: calls =>
    match g.add call with
    | .ok g => g.perform calls
    | .error fault => (g, some fault)

theorem perform_cons (h : g.add call = .ok g') : g.perform (call :: calls) = g'.perform calls := by
  rw [perform, h]

theorem perform_append (h : g.perform calls = (g', none)) :
    g.perform (calls ++ more) = g'.perform more := by
  induction calls generalizing g with
  | nil =>
    cases h
    rfl
  | cons call calls ih =>
    cases hadd : g.add call with
    | error fault => simp [perform, hadd] at h
    | ok g₁ =>
      rw [perform_cons hadd] at h
      rw [List.cons_append, perform_cons hadd, ih h]

/-- Calls made as a whole are those made one after the other, without the nodes of a failure. -/
theorem foldlM_add_eq (g : Graph) (calls : List (Call NodeId)) :
    calls.foldlM add g =
      match g.perform calls with
      | (g', none) => .ok g'
      | (_, some fault) => .error fault := by
  induction calls generalizing g with
  | nil => rfl
  | cons call calls ih =>
    rw [List.foldlM_cons, perform]
    cases g.add call with
    | error fault => rfl
    | ok g₁ => exact ih g₁

theorem foldlM_add_eq_ok : calls.foldlM add g = .ok g' ↔ g.perform calls = (g', none) := by
  rw [foldlM_add_eq]
  rcases g.perform calls with ⟨g₁, _ | fault⟩
  · simp
  · simp

/-- What every call preserves is preserved by calls that can all be made. -/
theorem perform_preserves {P : Graph → Prop}
    (hadd : ∀ {g g' : Graph} {call : Call NodeId}, g.add call = .ok g' → P g → P g')
    (h : g.perform calls = (g', none)) (hg : P g) : P g' := by
  induction calls generalizing g with
  | nil =>
    cases h
    exact hg
  | cons call calls ih =>
    cases hcall : g.add call with
    | error fault => simp [perform, hcall] at h
    | ok g₁ =>
      rw [perform_cons hcall] at h
      exact ih h (hadd hcall hg)

theorem growsTo_of_add (h : g.add call = .ok g') : g.GrowsTo g' := by
  obtain ⟨shape, -, rfl⟩ := add_eq_ok.1 h
  exact .push g _

theorem growsTo_of_perform (h : g.perform calls = (g', none)) : g.GrowsTo g' :=
  perform_preserves (fun hadd hgrows => hgrows.trans (growsTo_of_add hadd)) h (.refl g)

theorem size_of_perform (h : g.perform calls = (g', none)) : g'.size = g.size + calls.length := by
  induction calls generalizing g with
  | nil =>
    cases h
    rfl
  | cons call calls ih =>
    cases hcall : g.add call with
    | error fault => simp [perform, hcall] at h
    | ok g₁ =>
      rw [perform_cons hcall] at h
      obtain ⟨shape, -, rfl⟩ := add_eq_ok.1 hcall
      rw [ih h, size_push, List.length_cons, Nat.add_right_comm, Nat.add_assoc]

/-- A program that is not empty results in the last node. -/
theorem result_of_perform {p : Program} (hne : p.calls ≠ [])
    (h : g.perform (p.place (g.size + ·)) = (g', none)) :
    p.result (g.size + ·) + 1 = g'.size := by
  have hpos := List.length_pos_iff.2 hne
  rw [size_of_perform h, Program.place, List.length_map]
  change g.size + (p.calls.length - 1) + 1 = g.size + p.calls.length
  omega

/-- A lowering that answers with a program yields the graph with all of its calls made. -/
theorem lower_eq_ok_ok {ids : List NodeId} {lowering : List Argument → Except LoweringError Program}
    {result : NodeId} :
    g.lower ids lowering = .ok (.ok (g', result)) ↔
      ∃ args p, g.arguments ids = .ok args ∧ lowering args = .ok p ∧
        g.perform (p.place (g.size + ·)) = (g', none) ∧ p.result (g.size + ·) = result := by
  simp only [lower, bind_eq_ok]
  constructor
  · rintro ⟨args, hargs, h⟩
    cases hlower : lowering args with
    | error e => simp [hlower] at h
    | ok p =>
      simp only [hlower, append, bind_eq_ok, pure_eq_ok, foldlM_add_eq_ok] at h
      obtain ⟨pair, ⟨g₁, hperform, rfl⟩, heq⟩ := h
      cases heq
      exact ⟨args, p, hargs, hlower, hperform, rfl⟩
  · rintro ⟨args, p, hargs, hlower, hperform, rfl⟩
    refine ⟨args, hargs, ?_⟩
    simp only [hlower, append, bind_eq_ok, pure_eq_ok, foldlM_add_eq_ok]
    exact ⟨_, ⟨g', hperform, rfl⟩, rfl⟩

/-- The program can be appended to `g`, which yields `g'`, and its result has this shape. -/
structure Appends (g : Graph) (p : Program) (g' : Graph) (shape : Shape) : Prop where
  perform_eq : g.perform (p.place (g.size + ·)) = (g', none)
  shape_eq : g'.shape (p.result (g.size + ·)) = .ok shape

end Graph

end TensorResize
