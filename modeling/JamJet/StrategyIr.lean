import JamJet.Hashing
import JamJet.Strategies
import JamJet.ValidateRules

/-! A compiled strategy as a submitted workflow: its names are texts that differ, and what leads where
in the one leads there in the other. -/

namespace JamJet.Strategies

open Relation

namespace StrategyId

/-- The name with the given word and number. -/
def ofStem : String × Option ℕ → Option StrategyId
  | ("plan", none) => some plan
  | ("step", some i) => some (step i)
  | ("verify", some i) => some (verify i)
  | ("think", some i) => some (think i)
  | ("observe", some i) => some (observe i)
  | ("react_guard", some i) => some (reactGuard i)
  | ("draft", none) => some draft
  | ("critic", some i) => some (critic i)
  | ("critic_gate", some i) => some (criticGate i)
  | ("revise", some i) => some (revise i)
  | ("execute", none) => some execute
  | ("reflect", some i) => some (reflect i)
  | ("reflect_gate", some i) => some (reflectGate i)
  | ("agent", some i) => some (agent i)
  | ("vote", none) => some vote
  | ("judge", none) => some judge
  | ("propose", none) => some propose
  | ("counter", some i) => some (counter i)
  | ("judge", some i) => some (judgeRound i)
  | ("judge_gate", some i) => some (judgeGate i)
  | ("respond", some i) => some (respond i)
  | ("cost_guard", some i) => some (costGuard i)
  | ("finalize", none) => some finalize
  | ("limit_exceeded", none) => some limitExceeded
  | ("end", none) => some stop
  | _ => none

theorem ofStem_stem (id : StrategyId) : ofStem id.stem = some id := by
  cases id <;> rfl

theorem digits_stem (id : StrategyId) : id.stem.1.toList.filter Char.isDigit = [] := by
  cases id <;> simp only [stem] <;> decide

/-- What is between the underscores of a name. -/
def body (id : StrategyId) : List Char :=
  id.stem.1.toList ++ id.stem.2.elim [] fun i => '_' :: Nat.toDigits 10 i

theorem text_toList {id : StrategyId} (h : id ≠ stop) :
    id.text.toList = '_' :: '_' :: (id.body ++ ['_', '_']) := by
  cases id <;> first | contradiction | simp [text, stem, body]

theorem digits_body (id : StrategyId) :
    id.body.filter Char.isDigit = id.stem.2.elim [] (Nat.toDigits 10) := by
  rw [body, List.filter_append, digits_stem]
  cases id.stem.2 with
  | none => rfl
  | some i =>
    have hall : (Nat.toDigits 10 i).filter Char.isDigit = Nat.toDigits 10 i :=
      List.filter_eq_self.mpr fun _ hc => Hashing.isDigit_toDigits hc
    simp only [Option.elim_some, List.nil_append]
    rw [List.filter_cons_of_neg (by decide), hall]

theorem body_inj {a b : StrategyId} (h : a.body = b.body) : a = b := by
  have hdigits : a.stem.2.elim [] (Nat.toDigits 10) = b.stem.2.elim [] (Nat.toDigits 10) := by
    rw [← digits_body, ← digits_body, h]
  have hnumber : a.stem.2 = b.stem.2 := by
    cases ha : a.stem.2 with
    | none =>
      cases hb : b.stem.2 with
      | none => rfl
      | some j =>
        rw [ha, hb] at hdigits
        exact absurd hdigits.symm Nat.toDigits_ne_nil
    | some i =>
      cases hb : b.stem.2 with
      | none =>
        rw [ha, hb] at hdigits
        exact absurd hdigits Nat.toDigits_ne_nil
      | some j =>
        rw [ha, hb] at hdigits
        rw [Hashing.toDigits_inj hdigits]
  have hword : a.stem.1 = b.stem.1 := by
    rw [body, body, hnumber] at h
    exact String.toList_injective (List.append_cancel_right h)
  have hstem : a.stem = b.stem := Prod.ext hword hnumber
  have hsome : some a = some b := by rw [← ofStem_stem a, ← ofStem_stem b, hstem]
  exact Option.some.inj hsome

theorem text_injective : Function.Injective text := by
  intro a b h
  by_cases ha : a = stop
  · by_cases hb : b = stop
    · rw [ha, hb]
    · have hlist := congrArg String.toList h
      rw [ha, text_toList hb] at hlist
      exact absurd (List.cons.inj hlist).1 (by decide)
  · by_cases hb : b = stop
    · have hlist := congrArg String.toList h
      rw [hb, text_toList ha] at hlist
      exact absurd (List.cons.inj hlist).1 (by decide)
    · have hlist := congrArg String.toList h
      rw [text_toList ha, text_toList hb] at hlist
      simp only [List.cons.injEq, true_and] at hlist
      exact body_inj (List.append_cancel_right hlist)

end StrategyId

namespace Compiled

variable {c : Compiled} {id : StrategyId} {node : StrategyNode} {workflowId version : String}

def names (c : Compiled) : List StrategyId := c.nodes.map (·.1)

/-- The node as it is submitted, under its name. -/
def definition (id : StrategyId) (node : StrategyNode) : Ir.NodeDef where
  id := id.text
  kind := node.kind
  retryPolicy := node.retryPolicy
  labels := node.labels

/-- The workflow the compiled graph is submitted in. -/
def ir (c : Compiled) (workflowId version : String) : Ir.WorkflowIr where
  workflowId := workflowId
  version := version
  startNode := c.startNode.text
  nodes := (c.nodes.map fun (id, node) =>
    (⟨id.text, definition id node⟩ : Σ _ : NodeId, Ir.NodeDef)).toFinmap
  edges := c.edges.map fun e => { src := e.src.text, dst := e.dst.text, condition := e.condition }

/-- An edge leads from one name to the other. -/
def Leads (c : Compiled) (a b : StrategyId) : Prop := ∃ e ∈ c.edges, e.src = a ∧ e.dst = b

theorem leads_ir {x y : NodeId} : (c.ir workflowId version).Leads x y ↔
    ∃ a b, x = a.text ∧ y = b.text ∧ c.Leads a b := by
  constructor
  · intro h
    obtain ⟨edge, hedge, hsrc, hdst⟩ := Ir.WorkflowIr.mem_successors.mp h
    obtain ⟨e, he, rfl⟩ := List.mem_map.mp hedge
    exact ⟨e.src, e.dst, hsrc.symm, hdst.symm, e, he, rfl, rfl⟩
  · rintro ⟨a, b, rfl, rfl, e, he, rfl, rfl⟩
    exact Ir.WorkflowIr.mem_successors.mpr ⟨_, List.mem_map.mpr ⟨e, he, rfl⟩, rfl, rfl⟩

theorem leads_text {a b : StrategyId} :
    (c.ir workflowId version).Leads a.text b.text ↔ c.Leads a b := by
  rw [leads_ir]
  constructor
  · rintro ⟨a', b', ha, hb, hleads⟩
    rwa [StrategyId.text_injective ha, StrategyId.text_injective hb]
  · exact fun h => ⟨a, b, rfl, rfl, h⟩

theorem reaches_text {a b : StrategyId} (h : ReflTransGen c.Leads a b) :
    ReflTransGen (c.ir workflowId version).Leads a.text b.text :=
  h.lift StrategyId.text fun _ _ hleads => leads_text.mpr hleads

theorem transGen_ir {x y : NodeId} (h : TransGen (c.ir workflowId version).Leads x y) :
    ∃ a b, x = a.text ∧ y = b.text ∧ TransGen c.Leads a b := by
  induction h with
  | single hleads =>
    obtain ⟨a, b, hx, hy, hab⟩ := leads_ir.mp hleads
    exact ⟨a, b, hx, hy, .single hab⟩
  | tail _ hleads ih =>
    obtain ⟨a, b, hx, hy, hab⟩ := ih
    obtain ⟨b', d, hb, hd, hbd⟩ := leads_ir.mp hleads
    rw [hy] at hb
    exact ⟨a, d, hx, hd, hab.tail (StrategyId.text_injective hb ▸ hbd)⟩

theorem mem_ir {x : NodeId} :
    x ∈ (c.ir workflowId version).nodes ↔ ∃ id ∈ c.names, x = id.text := by
  rw [ir, ← Finmap.lookup_isSome, Finmap.dlookup_list_toFinmap, List.dlookup_isSome]
  simp [List.keys, names, eq_comm]

theorem lookup_ir (hnodup : c.names.Nodup) {x : NodeId} {found : Ir.NodeDef} :
    (c.ir workflowId version).nodes.lookup x = some found ↔
      ∃ id node, (id, node) ∈ c.nodes ∧ x = id.text ∧ found = definition id node := by
  rw [ir, Finmap.dlookup_list_toFinmap]
  have hkeys : (c.nodes.map fun (id, node) =>
      (⟨id.text, definition id node⟩ : Σ _ : NodeId, Ir.NodeDef)).NodupKeys := by
    rw [List.NodupKeys, List.keys, List.map_map]
    have hmap := hnodup.map StrategyId.text_injective
    rwa [names, List.map_map] at hmap
  rw [← Option.mem_def, List.mem_dlookup_iff hkeys, List.mem_map]
  constructor
  · rintro ⟨⟨id, node⟩, hmem, heq⟩
    cases heq
    exact ⟨id, node, hmem, rfl, rfl⟩
  · rintro ⟨id, node, hmem, rfl, rfl⟩
    exact ⟨(id, node), hmem, rfl⟩

end Compiled

end JamJet.Strategies
