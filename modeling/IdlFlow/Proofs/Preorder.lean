/-
  Depth-first preorder of a graph that is given by the successors of each node.

  * `Leads`: a node can be reached from another one without meeting a seen one;
  * `Walk`: the order in which nodes are met first when those of a list are
    visited one after the other, each with its successors before the next one;
  * `Segments`: what each node of a list adds.

  Main statements: a walk meets exactly the nodes that the unseen ones of its
  list lead to (`Walk.mem_iff`), each once (`Walk.nodup`), and what it meets
  behind a node is cut into the blocks of the node's successors
  (`Walk.block_of_mem`).  No order of the nodes and no bound on them is assumed,
  so cycles and shared successors are covered.
-/
import Mathlib.Logic.Relation
import Mathlib.Data.List.Basic

namespace IdlFlow

variable {κ : Type} {next : κ → List κ}

/-- The second node is reached from the first one over nodes that are not
    seen, these two included. -/
inductive Leads (next : κ → List κ) (seen : List κ) (p : κ) : κ → Prop
  | refl : p ∉ seen → Leads next seen p p
  | step {q r : κ} : Leads next seen p q → r ∈ next q → r ∉ seen → Leads next seen p r

/-- The nodes that visiting a list meets for the first time, in order. -/
inductive Walk (next : κ → List κ) : List κ → List κ → List κ → Prop
  | nil {seen : List κ} : Walk next seen [] []
  | known {seen ps order : List κ} {p : κ} :
      p ∈ seen → Walk next seen ps order → Walk next seen (p :: ps) order
  | visit {seen ps block order : List κ} {p : κ} :
      p ∉ seen → Walk next (seen ++ [p]) (next p) block →
      Walk next (seen ++ p :: block) ps order →
      Walk next seen (p :: ps) (p :: block ++ order)

/-- What each node of a list adds to those seen: nothing if it is among them,
    else itself first and then all that it leads to. -/
inductive Segments (next : κ → List κ) : List κ → List κ → List (List κ) → Prop
  | nil {seen : List κ} : Segments next seen [] []
  | known {seen ps : List κ} {blocks : List (List κ)} {p : κ} :
      p ∈ seen → Segments next seen ps blocks → Segments next seen (p :: ps) ([] :: blocks)
  | new {seen ps block : List κ} {blocks : List (List κ)} {p : κ} :
      p ∉ seen → (∀ q, q ∈ p :: block ↔ Leads next seen p q) →
      Segments next (seen ++ p :: block) ps blocks →
      Segments next seen (p :: ps) ((p :: block) :: blocks)

/-! ## Reaching -/

namespace Leads

variable {seen : List κ} {p q r : κ}

theorem head (hp : p ∉ seen) (hq : q ∈ next p) (h : Leads next seen q r) :
    Leads next seen p r := by
  induction h with
  | refl h => exact .step (.refl hp) hq h
  | step _ hr hs ih => exact .step ih hr hs

/-- With fewer nodes seen, no fewer are reached. -/
theorem anti {fewer : List κ} (sub : fewer ⊆ seen) (h : Leads next seen p q) :
    Leads next fewer p q := by
  induction h with
  | refl h => exact .refl fun mem => h (sub mem)
  | step _ hr hs ih => exact .step ih hr fun mem => hs (sub mem)

/-- With no node seen, reaching is any number of steps. -/
theorem nil_iff :
    Leads next [] p q ↔ Relation.ReflTransGen (fun a b => b ∈ next a) p q := by
  constructor
  · intro h
    induction h with
    | refl => exact .refl
    | step _ hr _ ih => exact ih.tail hr
  · intro h
    induction h with
    | refl => exact .refl (by simp)
    | tail _ hr ih => exact .step ih hr (by simp)

end Leads

/-! ## What a walk meets -/

namespace Walk

variable {seen ps order : List κ} {p q : κ}

/-- A walk meets no seen node, and no node twice. -/
theorem nodup_append (h : Walk next seen ps order) (nodup : seen.Nodup) :
    (seen ++ order).Nodup := by
  induction h with
  | nil => simpa using nodup
  | known _ _ ih => exact ih nodup
  | @visit seen ps block order p hp _ _ ihBlock ihRest =>
    have first : (seen ++ [p]).Nodup :=
      List.nodup_append.2 ⟨nodup, by simp, fun a ha b hb => by
        rw [List.mem_singleton.1 hb]; rintro rfl; exact hp ha⟩
    have block := ihBlock first
    rw [List.append_assoc, List.singleton_append] at block
    simpa using ihRest block

theorem nodup (h : Walk next [] ps order) : order.Nodup := by
  simpa using h.nodup_append List.nodup_nil

/-- Every node of the list is seen or met. -/
theorem covers (h : Walk next seen ps order) : ∀ p ∈ ps, p ∈ seen ++ order := by
  induction h with
  | nil => simp
  | @known _ _ order _ hp _ ih =>
    intro p mem
    rcases List.mem_cons.1 mem with rfl | mem
    · exact List.mem_append_left _ hp
    · exact ih p mem
  | visit _ _ _ _ ihRest =>
    intro p mem
    rcases List.mem_cons.1 mem with rfl | mem
    · simp
    · simpa using ihRest p mem

/-- The successors of what is met are seen or met. -/
theorem closed (h : Walk next seen ps order) :
    ∀ q ∈ order, ∀ r ∈ next q, r ∈ seen ++ order := by
  induction h with
  | nil => simp
  | known _ _ ih => exact ih
  | @visit seen ps block order p _ hblock _ ihBlock ihRest =>
    intro q hq r hr
    rcases List.mem_append.1 hq with hq | hq
    · have mem : r ∈ (seen ++ [p]) ++ block := by
        rcases List.mem_cons.1 hq with rfl | hq
        · exact hblock.covers r hr
        · exact ihBlock q hq r hr
      have : r ∈ seen ∨ r = p ∨ r ∈ block := by simpa using mem
      rcases this with h | h | h <;> simp [h]
    · simpa using ihRest q hq r hr

/-- Every node that is met is reached from the list over unseen nodes. -/
theorem leads (h : Walk next seen ps order) : ∀ q ∈ order, ∃ p ∈ ps, Leads next seen p q := by
  induction h with
  | nil => simp
  | known _ _ ih =>
    intro q hq
    obtain ⟨p, mem, h⟩ := ih q hq
    exact ⟨p, List.mem_cons_of_mem _ mem, h⟩
  | @visit seen ps block order p hp _ _ ihBlock ihRest =>
    intro q hq
    rcases List.mem_append.1 hq with hq | hq
    · refine ⟨p, by simp, ?_⟩
      rcases List.mem_cons.1 hq with rfl | hq
      · exact .refl hp
      · obtain ⟨r, mem, h⟩ := ihBlock q hq
        exact .head hp mem (h.anti (by simp))
    · obtain ⟨r, mem, h⟩ := ihRest q hq
      exact ⟨r, List.mem_cons_of_mem _ mem, h.anti (by simp)⟩

theorem mem_of_leads (h : Walk next seen ps order) (hp : p ∈ ps) (l : Leads next seen p q) :
    q ∈ order := by
  induction l with
  | refl hs => exact (List.mem_append.1 (h.covers _ hp)).resolve_left hs
  | step _ hr hs ih => exact (List.mem_append.1 (h.closed _ ih _ hr)).resolve_left hs

/-- **What a walk meets**: exactly what its list leads to over unseen nodes. -/
theorem mem_iff (h : Walk next seen ps order) :
    q ∈ order ↔ ∃ p ∈ ps, Leads next seen p q :=
  ⟨h.leads q, fun ⟨_, hp, l⟩ => h.mem_of_leads hp l⟩

theorem append {qs more : List κ} (h : Walk next seen ps order) (rest : Walk next (seen ++ order) qs more) :
    Walk next seen (ps ++ qs) (order ++ more) := by
  induction h with
  | nil => simpa using rest
  | known hp _ ih => exact .known hp (ih rest)
  | visit hp hblock _ _ ih =>
    rw [List.append_assoc]
    exact .visit hp hblock (ih (by simpa using rest))

/-! ## The order -/

/-- What a walk meets is cut into the blocks of its list. -/
theorem segments (h : Walk next seen ps order) :
    ∃ blocks, order = blocks.flatten ∧ Segments next seen ps blocks := by
  induction h with
  | nil => exact ⟨[], rfl, .nil⟩
  | known hp _ ih =>
    obtain ⟨blocks, rfl, h⟩ := ih
    exact ⟨[] :: blocks, rfl, .known hp h⟩
  | @visit seen ps block order p hp hblock _ _ ihRest =>
    obtain ⟨blocks, rfl, h⟩ := ihRest
    -- The block is what a walk over the one node meets.
    have alone : Walk next seen [p] (p :: block ++ []) := .visit hp hblock .nil
    rw [List.append_nil] at alone
    exact ⟨(p :: block) :: blocks, rfl, .new hp (fun q => by simpa using alone.mem_iff (q := q)) h⟩

/-- **The order**: behind a node that is met come the blocks of its successors,
    cut with the nodes up to it as the seen ones. -/
theorem block_of_mem (h : Walk next seen ps order) (hq : q ∈ order) :
    ∃ before blocks after, seen ++ order = before ++ q :: (blocks.flatten ++ after) ∧
      Segments next (before ++ [q]) (next q) blocks := by
  induction h with
  | nil => simp at hq
  | known _ _ ih => exact ih hq
  | @visit seen ps block order p _ hblock _ ihBlock ihRest =>
    rcases List.mem_append.1 hq with hq | hq
    · rcases List.mem_cons.1 hq with rfl | hq
      · obtain ⟨blocks, rfl, h⟩ := hblock.segments
        exact ⟨seen, blocks, order, by simp, h⟩
      · obtain ⟨before, blocks, after, eq, h⟩ := ihBlock hq
        refine ⟨before, blocks, after ++ order, ?_, h⟩
        calc seen ++ (p :: block ++ order)
            = ((seen ++ [p]) ++ block) ++ order := by simp
          _ = before ++ q :: (blocks.flatten ++ (after ++ order)) := by rw [eq]; simp
    · obtain ⟨before, blocks, after, eq, h⟩ := ihRest hq
      exact ⟨before, blocks, after, by rw [← eq]; simp, h⟩

/-- From one unseen node, the node itself is met first. -/
theorem head_eq (h : Walk next seen [p] order) (hp : p ∉ seen) : order.head? = some p := by
  cases h with
  | known mem => exact absurd mem hp
  | visit => rfl

end Walk

end IdlFlow
