import XevXml.Core.Grid
import XevXml.Trans.Loop

/-!
# Nests of Loops

A perfect nest of any depth, described by what a rule can see of it: each level
is a loop element whose first three child elements are the header, followed by
the block and by elements that hold no loop, and each block but the innermost
one holds a single element, the next level. Text and comments may stand
anywhere.

The nest executes its innermost block once for every environment its headers
give rise to. If no header depends on an index of the nest, the values of the
indices are the points of a grid in lexicographic order.

## Main definitions

* `Xml.loopFree`: Trees without loops and blocks.
* `IsLoop`: One level.
* `Nest`: All levels.
* `nestEnvs`: The environments of the innermost block.

## Theorems

* `isLoop_xml`: Well-formed loops are levels.
* `runs_of_nest`: What a nest executes.
* `nestEnvs_grid`: The values of the indices.
-/

namespace XevXml

section Free

mutual

/-- Whether a tree holds neither a loop nor a block. -/
def Xml.loopFree : Xml → Bool
  | .elem name _ cs => name != "SgFortranDo" && name != "SgBasicBlock" && loopFreeAll cs
  | .text _ => true
  | .comment _ => true

/-- Whether this holds of all trees of a list. -/
def loopFreeAll : List Xml → Bool
  | [] => true
  | x :: xs => x.loopFree && loopFreeAll xs

end

theorem loopFreeAll_iff (ns : List Xml) : loopFreeAll ns = true ↔ ∀ x ∈ ns, x.loopFree = true := by
  induction ns with
  | nil => simp [loopFreeAll]
  | cons n ns ih => simp [loopFreeAll, ih]

theorem hasName_of_loopFree {x : Xml} (h : x.loopFree = true) :
    x.hasName "SgFortranDo" = false ∧ x.hasName "SgBasicBlock" = false := by
  cases x with
  | elem name attrs cs =>
      simp only [Xml.loopFree, Bool.and_eq_true, bne_iff_ne, ne_eq] at h
      simp [h.1.1, h.1.2]
  | text t => exact ⟨rfl, rfl⟩
  | comment t => exact ⟨rfl, rfl⟩

end Free

section Levels

/-- A loop with the given header and block. -/
structure IsLoop (x : Xml) (hdr : List Xml) (b : Xml) : Prop where
  loop : x.hasName "SgFortranDo" = true
  block : b.hasName "SgBasicBlock" = true
  length : hdr.length = 3
  elems : elements hdr = hdr
  free : ∀ e ∈ hdr, e.loopFree = true
  parts : ∃ infos, elements x.children = hdr ++ b :: infos ∧ ∀ e ∈ infos, e.loopFree = true

/-- A perfect nest with the given headers and the given innermost block. -/
inductive Nest : List (List Xml) → Xml → Xml → Prop
  | single {x : Xml} {hdr : List Xml} {b : Xml} : IsLoop x hdr b → Nest [hdr] x b
  | around {x : Xml} {hdr : List Xml} {b y : Xml} {hdrs : List (List Xml)} {c : Xml} :
      IsLoop x hdr b → elements b.children = [y] → Nest hdrs y c → Nest (hdr :: hdrs) x c

/-- The environments of the iterations of a loop with a given header. -/
def headerEnvs (μ : Machine) (ρ : Env) (hdr : List Xml) : List Env :=
  match header hdr with
  | some h => (h.values μ ρ).map fun v => ρ.set h.index v
  | none => []

/-- The environments of the innermost block. -/
def nestEnvs (μ : Machine) : List (List Xml) → Env → List Env
  | [], ρ => [ρ]
  | hdr :: hdrs, ρ => (headerEnvs μ ρ hdr).flatMap (nestEnvs μ hdrs)

variable {μ : Machine} {x b c : Xml} {hdr : List Xml} {hdrs : List (List Xml)}

theorem named_of_isLoop (h : IsLoop x hdr b) : named "SgBasicBlock" x.children = [b] := by
  have hnone : ∀ ns : List Xml, (∀ e ∈ ns, e.loopFree = true) → named "SgBasicBlock" ns = [] := by
    intro ns hns
    refine List.filter_eq_nil_iff.mpr fun e he => ?_
    rw [(hasName_of_loopFree (hns e he)).2]
    decide
  rcases h.parts with ⟨infos, hchildren, hinfos⟩
  rw [← named_elements, hchildren, named_append, hnone hdr h.free, named_cons, if_pos h.block,
    hnone infos hinfos, List.nil_append]

/-- The header is made of the first three elements. -/
theorem header_append (hlen : hdr.length = 3) (helems : elements hdr = hdr) (cs rest : List Xml)
    (hcs : elements cs = hdr ++ rest) : header cs = header hdr := by
  match hdr, hlen, helems, hcs with
  | [init, bound, inc], _, helems, hcs =>
      unfold header
      rw [hcs, helems]
      rfl

theorem loopRuns_of_isLoop (h : IsLoop x hdr b) (ρ : Env) :
    loopRuns μ ρ x = (headerEnvs μ ρ hdr).map fun ρ' => (b, ρ') := by
  rcases h.parts with ⟨infos, hchildren, -⟩
  have hheader := header_append h.length h.elems _ _ hchildren
  rw [loopRuns, if_pos h.loop, hheader, named_of_isLoop h, headerEnvs]
  cases header hdr with
  | none => rfl
  | some hd =>
      simp only [List.take_succ_cons, List.take_zero, List.map_cons, List.map_nil, List.map_map]
      exact List.flatMap_pure_eq_map _ _

/-- A nest executes its innermost block in these environments. -/
theorem runs_of_nest (h : Nest hdrs x c) (ρ : Env) :
    runs μ (hdrs.length - 1) ρ x = (nestEnvs μ hdrs ρ).map fun ρ' => (c, ρ') := by
  induction h generalizing ρ with
  | @single x hdr b hloop =>
      have hone : nestEnvs μ [hdr] ρ = headerEnvs μ ρ hdr := List.flatMap_singleton' _
      rw [hone]
      exact loopRuns_of_isLoop hloop ρ
  | @around x hdr b y hdrs c hloop hchild hnest ih =>
      have hlen : (hdr :: hdrs).length - 1 = hdrs.length - 1 + 1 := by
        cases hnest <;> simp
      rw [hlen, runs, loopRuns_of_isLoop hloop, List.flatMap_map, nestEnvs, List.map_flatMap]
      refine List.flatMap_congr fun ρ' _ => ?_
      rw [← flatMap_runs_elements, hchild, List.flatMap_singleton, ih]

end Levels

section WellFormed

/-- The header of a well-formed loop, as elements. -/
def DoLoop.parts (L : DoLoop) : List Xml := [L.init, L.upper.xml, L.stride.xml]

/-- Well-formed loops whose header and attachments hold no loops. -/
def DoLoop.Free (L : DoLoop) : Prop := ∀ e ∈ L.parts ++ L.infoList, e.loopFree = true

theorem DoLoop.Free.header {L : DoLoop} (h : L.Free) :
    L.init.loopFree = true ∧ L.upper.xml.loopFree = true ∧ L.stride.xml.loopFree = true :=
  ⟨h _ (by simp [DoLoop.parts]), h _ (by simp [DoLoop.parts]), h _ (by simp [DoLoop.parts])⟩

variable (μ : Machine) (ρ : Env)

theorem header_parts (L : DoLoop) : header L.parts = some L.head :=
  header_of_assign [] _ rfl L.named rfl rfl rfl

theorem isLoop_xml {L : DoLoop} (h : L.Free) : IsLoop L.xml L.parts L.block where
  loop := rfl
  block := rfl
  length := rfl
  elems := rfl
  free := fun e he => h e (List.mem_append_left _ he)
  parts := ⟨L.infoList, elements_children L, fun e he => h e (List.mem_append_right _ he)⟩

theorem headerEnvs_parts (L : DoLoop) (ρ : Env) :
    headerEnvs μ ρ L.parts = (L.values μ ρ).map fun v => ρ.set L.index v := by
  rw [headerEnvs, header_parts]
  rfl

variable {μ : Machine} {ρ ρ' : Env} {xs : List Text} {n : Nat}

/-- A nest sets its own indices only. -/
theorem nestEnvs_of_ne (loops : Fin n → DoLoop) {y : Text} (hy : ∀ k, y ≠ (loops k).index)
    (ρ e : Env) (he : e ∈ nestEnvs μ (List.ofFn fun k => (loops k).parts) ρ) : e y = ρ y := by
  induction n generalizing ρ with
  | zero =>
      rw [List.ofFn_zero] at he
      rw [List.mem_singleton.mp he]
  | succ n ih =>
      rw [List.ofFn_succ, nestEnvs, headerEnvs_parts] at he
      rcases List.mem_flatMap.mp he with ⟨ρ₁, hρ₁, he⟩
      rcases List.mem_map.mp hρ₁ with ⟨v, -, rfl⟩
      rw [ih (fun k => loops k.succ) (fun k => hy k.succ) _ he, Env.set_of_ne ρ v (hy 0)]

/-- Where no header depends on the indices, their values are the points of a
    grid. -/
theorem nestEnvs_grid (loops : Fin n → DoLoop) (hfixed : ∀ k, (loops k).Fixed μ ρ xs)
    (hmem : ∀ k, (loops k).index ∈ xs) (hinj : Function.Injective fun k => (loops k).index)
    (hagree : Env.Agree xs ρ' ρ) :
    ((nestEnvs μ (List.ofFn fun k => (loops k).parts) ρ').map fun e k => e (loops k).index) =
      (Grid.grid fun k => (loops k).values μ ρ).map fun f k => some (f k) := by
  induction n generalizing ρ' with
  | zero =>
      have hone : ∀ f g : Fin 0 → Option Int, f = g := fun f g => funext fun k => k.elim0
      rw [List.ofFn_zero, nestEnvs, Grid.grid, List.map_singleton, List.map_singleton]
      exact congrArg (fun f => [f]) (hone _ _)
  | succ n ih =>
      rw [List.ofFn_succ, nestEnvs, headerEnvs_parts, Grid.grid, List.flatMap_map,
        List.map_flatMap, List.map_flatMap, (hfixed 0).values hagree]
      refine List.flatMap_congr fun v _ => ?_
      have htail := ih (fun k => loops k.succ) (fun k => hfixed k.succ) (fun k => hmem k.succ)
        (fun k l h => Fin.succ_injective n (hinj h)) (hagree.set (hmem 0) v)
      have hcons := congrArg (List.map (Fin.cons (α := fun _ => Option Int) (some v))) htail
      rw [List.map_map, List.map_map] at hcons
      rw [List.map_map]
      -- The index of the first loop keeps its value in the rest of the nest.
      refine Eq.trans (List.map_congr_left fun e he => ?_) (hcons.trans (List.map_congr_left ?_))
      · have hhead := nestEnvs_of_ne (μ := μ) (fun k => loops k.succ) (y := (loops 0).index)
          (fun k h => Fin.succ_ne_zero k (hinj h).symm) _ e he
        rw [Env.set_self] at hhead
        funext k
        refine Fin.cases ?_ (fun j => ?_) k
        · exact hhead
        · rfl
      · intro g _
        funext k
        refine Fin.cases ?_ (fun j => ?_) k
        · rfl
        · rfl

end WellFormed

end XevXml
