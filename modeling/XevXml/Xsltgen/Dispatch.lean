import XevXml.Xsltgen.Directive
import XevXml.Xsltgen.Legible

/-!
# Dispatching Directives

The directives of a file are sorted by the class of statements that they are for, and each class
has a template. Directives for all classes are in every template behind those of the class, so
they give way to them. A class that no directive names has the template for all classes. What the
templates do is one thing for all elements: the first directive that is there is carried out,
those of the class before those for all classes, each in the order of their names.

A directive is there if its name is a pragma of the element in front of the statement, and one
that has a star for a name is always there. A star comes before all letters, so the directives
behind it in the same template are never looked for.

## Main definitions

* `Groups`: Directives sorted by their targets.
* `multidefs`: A file of two directives.

## Theorems

* `writeTargets_spec`: The templates of the targets.
* `applies_element`: Which of them is taken.
* `legible_writeXslt`: Files that can be pasted.
* `writeXslt_transforms`: What the stylesheet does with a program.
* `separate_of_names`: Names of rules that give different modes.
* `chosen_iff`: The directives that are never looked for.
-/

namespace XevXml.Xsltgen

open Stylesheet Fuel

section Targets

/-- The directives of the targets are those that name them. -/
structure Groups (root : List Entry) (targets : Targets) : Prop where
  keys : ∀ t, t ∈ targets.map Prod.fst ↔ ∃ i ∈ root, GetTarget i.2 = t
  dirs : ∀ j ∈ targets, j.2 = root.filter fun i => GetTarget i.2 = j.1

theorem mem_insertTarget_iff (target : Text) (targets : Targets) (j : Text × List Entry) :
    j ∈ insertTarget target targets ↔ j = (target, []) ∨ j ∈ targets := by
  induction targets with
  | nil => exact List.mem_singleton.trans (by simp)
  | cons k targets ih =>
      rw [insertTarget]
      split
      · exact List.mem_cons
      · rw [List.mem_cons, ih, List.mem_cons, or_left_comm]

/-- The targets, with room for one more. -/
def roomFor (target : Text) (targets : Targets) : Targets :=
  if targets.any fun j => j.1 = target then targets else insertTarget target targets

theorem mem_roomFor_iff (target : Text) (targets : Targets) (j : Text × List Entry) :
    j ∈ roomFor target targets ↔
      j ∈ targets ∨ (j = (target, []) ∧ target ∉ targets.map Prod.fst) := by
  have hany : (targets.any fun j => j.1 = target) = true ↔ target ∈ targets.map Prod.fst := by
    simp [List.mem_map]
  unfold roomFor
  split
  · next hin => simp [hany.mp hin]
  · next hout =>
      rw [mem_insertTarget_iff, or_comm]
      simp [mt hany.mpr hout]

/-- There was a place for every target, and the directives are those that name it. -/
theorem Groups.room {root : List Entry} {targets : Targets} (h : Groups root targets)
    (target : Text) {j : Text × List Entry} (hj : j ∈ roomFor target targets) :
    j.2 = root.filter fun i => GetTarget i.2 = j.1 := by
  rcases (mem_roomFor_iff target targets j).mp hj with hj | ⟨rfl, hout⟩
  · exact h.dirs j hj
  · refine (List.filter_eq_nil_iff.mpr fun i hi heq => hout ?_).symm
    exact (h.keys target).mpr ⟨i, hi, of_decide_eq_true heq⟩

theorem keys_roomFor (target : Text) (targets : Targets) (t : Text) :
    t ∈ (roomFor target targets).map Prod.fst ↔ t ∈ targets.map Prod.fst ∨ t = target := by
  simp only [List.mem_map, mem_roomFor_iff]
  constructor
  · rintro ⟨j, hj | ⟨rfl, -⟩, rfl⟩
    · exact Or.inl ⟨j, hj, rfl⟩
    · exact Or.inr rfl
  · rintro (⟨j, hj, rfl⟩ | rfl)
    · exact ⟨j, Or.inl hj, rfl⟩
    · by_cases hin : ∃ j ∈ targets, j.1 = t
      · obtain ⟨j, hj, rfl⟩ := hin
        exact ⟨j, Or.inl hj, rfl⟩
      · exact ⟨(t, []), Or.inr ⟨rfl, hin⟩, rfl⟩

/-- One more directive. -/
theorem Groups.add {root : List Entry} {targets : Targets} (h : Groups root targets) (i : Entry) :
    Groups (root ++ [i]) (addTarget (GetTarget i.2) i targets) := by
  have hadd : addTarget (GetTarget i.2) i targets = (roomFor (GetTarget i.2) targets).map
      fun j => if j.1 = GetTarget i.2 then (j.1, j.2 ++ [i]) else j := rfl
  have hfst : (addTarget (GetTarget i.2) i targets).map Prod.fst =
      (roomFor (GetTarget i.2) targets).map Prod.fst := by
    rw [hadd, List.map_map]
    refine List.map_congr_left fun j _ => ?_
    rw [Function.comp_apply]
    split <;> rfl
  refine ⟨fun t => ?_, fun j hj => ?_⟩
  · rw [hfst, keys_roomFor, h.keys]
    simp [or_and_right, exists_or, eq_comm]
  · rw [hadd, List.mem_map] at hj
    obtain ⟨k, hk, rfl⟩ := hj
    have hdirs := h.room (GetTarget i.2) hk
    rw [List.filter_append]
    by_cases heq : k.1 = GetTarget i.2
    · rw [if_pos heq, hdirs]
      simp [heq]
    · rw [if_neg heq, hdirs]
      simp [Ne.symm heq]

theorem groups_targetsOf (root : List Entry) : Groups root (targetsOf root) := by
  have hfrom : ∀ (done rest : List Entry) (targets : Targets), Groups done targets →
      Groups (done ++ rest)
        (rest.foldl (fun targets i => addTarget (GetTarget i.2) i targets) targets) := by
    intro done rest
    induction rest generalizing done with
    | nil =>
        intro targets h
        rwa [List.append_nil]
    | cons i rest ih =>
        intro targets h
        have hnext := ih (done ++ [i]) _ (h.add i)
        rwa [List.append_assoc] at hnext
  exact hfrom [] root [] ⟨by simp, by simp⟩

theorem lookup_wild (root : List Entry) : ((targetsOf root).lookup "*".toList).getD [] =
    root.filter fun i => GetTarget i.2 = "*".toList := by
  have hgroups := groups_targetsOf root
  cases hlookup : (targetsOf root).lookup "*".toList with
  | some dirs =>
      obtain ⟨before, after, heq, -⟩ := List.lookup_eq_some_iff.mp hlookup
      exact hgroups.dirs ("*".toList, dirs) (by simp [heq])
  | none =>
      refine (List.filter_eq_nil_iff.mpr fun i hi htarget => ?_).symm
      obtain ⟨j, hj, heq⟩ := List.mem_map.mp
        ((hgroups.keys "*".toList).mpr ⟨i, hi, of_decide_eq_true htarget⟩)
      exact absurd heq.symm (by simpa using List.lookup_eq_none_iff.mp hlookup j hj)

theorem keys_writtenTargets (root : List Entry) (t : Text) :
    t ∈ (writtenTargets root).map Prod.fst ↔ ∃ i ∈ root, GetTarget i.2 = t := by
  rw [← (groups_targetsOf root).keys]
  unfold writtenTargets
  split
  · have hfst : (withAny (targetsOf root)).map Prod.fst = (targetsOf root).map Prod.fst := by
      rw [withAny, List.map_map]
      refine List.map_congr_left fun j _ => ?_
      rw [Function.comp_apply]
      split <;> rfl
    rw [hfst]
  · rfl

theorem dirs_writtenTargets (root : List Entry) {j : Text × List Entry}
    (hj : j ∈ writtenTargets root) : j.2 =
      if j.1 = "*".toList then root.filter fun i => GetTarget i.2 = "*".toList
      else candidates root j.1 := by
  have hgroups := groups_targetsOf root
  unfold writtenTargets at hj
  split at hj
  · rw [withAny, lookup_wild] at hj
    obtain ⟨k, hk, rfl⟩ := List.mem_map.mp hj
    have hdirs := hgroups.dirs k hk
    by_cases heq : k.1 = "*".toList
    · rw [if_pos heq, if_pos heq, hdirs, heq]
    · rw [if_neg heq, if_neg heq, hdirs]
      rfl
  · next hany =>
      have hwild : (root.filter fun i => GetTarget i.2 = "*".toList) = [] := by
        refine List.filter_eq_nil_iff.mpr fun i hi htarget => hany ?_
        exact List.any_eq_true.mpr ⟨i, hi, htarget⟩
      have hdirs := hgroups.dirs j hj
      split
      · next heq => rw [hdirs, heq]
      · rw [hdirs, candidates, hwild, List.append_nil]

theorem isObject_of_writtenTargets {root : List Entry} (hobj : ∀ i ∈ root, i.2.isObject = true)
    {j : Text × List Entry} (hj : j ∈ writtenTargets root) : ∀ i ∈ j.2, i.2.isObject = true := by
  intro i hi
  rw [dirs_writtenTargets root hj] at hi
  refine hobj i ?_
  split at hi
  · exact (List.mem_filter.mp hi).1
  · rcases List.mem_append.mp hi with hi | hi
    · exact (List.mem_filter.mp hi).1
    · exact (List.mem_filter.mp hi).1

end Targets

section Sheets

/-- The uses of rules for a target. -/
def targetUses (j : Text × List Entry) : List Entry := j.2.flatMap fun i => usesOf i.2.entries

theorem writeTargets_spec {targets : Targets} (hobj : ∀ j ∈ targets, ∀ i ∈ j.2, i.2.isObject = true)
    (caller : List Entry) :
    (writeTargets caller targets).2 = caller ++ targets.flatMap targetUses ∧
      (∀ t ∈ (writeTargets caller targets).1, ∃ j ∈ targets, ∃ pre post,
        t = targetTemplate j.1 (writeBranches pre j.2).1 ∧
          caller ++ targets.flatMap targetUses = pre ++ targetUses j ++ post) ∧
      ∀ j ∈ targets, ∃ branches, targetTemplate j.1 branches ∈ (writeTargets caller targets).1 := by
  induction targets generalizing caller with
  | nil => exact ⟨(List.append_nil _).symm, List.forall_mem_nil _, List.forall_mem_nil _⟩
  | cons k targets ih =>
      obtain ⟨hk, htargets⟩ := List.forall_mem_cons.mp hobj
      have huses := writeBranches_uses caller k.2 hk
      obtain ⟨hall, honly, hthere⟩ := ih htargets (writeBranches caller k.2).2
      refine ⟨?_, fun t ht => ?_, fun j hj => ?_⟩
      · rw [List.flatMap_cons, ← List.append_assoc, targetUses, ← huses]
        exact hall
      · rcases List.mem_cons.mp ht with rfl | ht
        · exact ⟨k, List.mem_cons_self, caller, targets.flatMap targetUses, rfl, by
            rw [List.flatMap_cons, List.append_assoc]⟩
        · obtain ⟨j, hj, pre, post, heq, hsplit⟩ := honly t ht
          rw [huses, List.append_assoc] at hsplit
          exact ⟨j, List.mem_cons_of_mem _ hj, pre, post, heq, hsplit⟩
      · rcases List.mem_cons.mp hj with rfl | hj
        · exact ⟨_, List.mem_cons_self⟩
        · obtain ⟨branches, hmem⟩ := hthere j hj
          exact ⟨branches, List.mem_cons_of_mem _ hmem⟩

theorem mem_writeCaller_iff {i : Nat} {rules : List Entry} {cs : List (Template Condition)}
    (h : WriteCaller i rules = some cs) (t : Template Condition) :
    t ∈ cs ↔ ∃ j r params, rules[j]? = some r ∧ writeParams r.2.entries = some params ∧
      t = callTemplate r (i + j) params := by
  induction rules generalizing i cs with
  | nil =>
      cases h
      simp
  | cons r rules ih =>
      rw [WriteCaller, Option.bind_eq_bind, Option.bind_eq_some_iff] at h
      obtain ⟨params, hparams, h⟩ := h
      rw [Option.bind_eq_bind, Option.bind_eq_some_iff] at h
      obtain ⟨ds, hds, h⟩ := h
      cases h
      rw [List.mem_cons, ih hds]
      constructor
      · rintro (rfl | ⟨j, s, ps, hs, hps, rfl⟩)
        · exact ⟨0, r, params, rfl, hparams, rfl⟩
        · exact ⟨j + 1, s, ps, hs, hps, by rw [Nat.add_right_comm, Nat.add_assoc]⟩
      · rintro ⟨j, s, ps, hs, hps, rfl⟩
        cases j with
        | zero =>
            cases hs
            rw [hparams] at hps
            cases hps
            exact Or.inl rfl
        | succ j => exact Or.inr ⟨j, s, ps, hs, hps, by rw [Nat.add_right_comm, Nat.add_assoc]⟩

/-- Every use has parameters. -/
theorem params_of_writeCaller {i : Nat} {rules : List Entry} {cs : List (Template Condition)}
    (h : WriteCaller i rules = some cs) {r : Entry} (hr : r ∈ rules) :
    ∃ params, writeParams r.2.entries = some params := by
  induction rules generalizing i cs with
  | nil => cases hr
  | cons s rules ih =>
      rw [WriteCaller, Option.bind_eq_bind, Option.bind_eq_some_iff] at h
      obtain ⟨params, hparams, h⟩ := h
      rw [Option.bind_eq_bind, Option.bind_eq_some_iff] at h
      obtain ⟨ds, hds, -⟩ := h
      rcases List.mem_cons.mp hr with rfl | hr
      · exact ⟨params, hparams⟩
      · exact ih hds hr

variable {root : List Entry} {sheet : Sheet}

/-- The other templates have no mode. -/
theorem mode_of_mem (hobj : ∀ i ∈ root, i.2.isObject = true) (any : Bool) {t : Template Condition}
    (ht : t ∈ (if any then [] else [xsltdefault]) ++ (writeRoot root).1) : t.mode = none := by
  rcases List.mem_append.mp ht with ht | ht
  · split at ht
    · cases ht
    · rw [List.mem_singleton.mp ht]
      rfl
  · obtain ⟨j, -, pre, post, rfl, -⟩ := (writeTargets_spec
      (fun j hj => isObject_of_writtenTargets hobj hj) []).2.1 t ht
    rfl

/-- The templates with a mode are those of the uses. -/
theorem calls_of_writeXslt (hobj : ∀ i ∈ root, i.2.isObject = true)
    (hsheet : WriteXslt root = some sheet) : Calls sheet.templates (writeRoot root).2 := by
  rw [WriteXslt, Option.map_eq_some_iff] at hsheet
  obtain ⟨callers, hcallers, rfl⟩ := hsheet
  refine ⟨fun {i r} hr => ?_, fun {t m} ht hm => ?_⟩
  · obtain ⟨params, hparams⟩ := params_of_writeCaller hcallers (List.mem_of_getElem? hr)
    refine ⟨params, List.mem_append_right _ ?_⟩
    exact (mem_writeCaller_iff hcallers _).mpr ⟨i, r, params, hr, hparams, by rw [Nat.zero_add]⟩
  · rcases List.mem_append.mp ht with ht | ht
    · rw [mode_of_mem hobj _ ht] at hm
      cases hm
    · obtain ⟨j, r, params, hr, hparams, rfl⟩ := (mem_writeCaller_iff hcallers t).mp ht
      exact ⟨j, r, params, hr, hparams, by rw [Nat.zero_add]⟩

variable {imported : Applied (List Item)}

theorem transformAll_eq (before ns : List Item) : transformAll imported root before ns =
    (fociFrom before ns).flatMap fun q => transform imported root q.before q.after q.node := by
  induction ns generalizing before with
  | nil => rfl
  | cons n ns ih => rw [transformAll, fociFrom, List.flatMap_cons, ih]

/-- The templates without a mode. -/
theorem unmoded_cases (hobj : ∀ i ∈ root, i.2.isObject = true)
    (hsheet : WriteXslt root = some sheet) {t : Template Condition} (ht : t ∈ sheet.templates)
    (hmode : t.mode = none) :
    ((∀ i ∈ root, GetTarget i.2 ≠ "*".toList) ∧ t = xsltdefault) ∨
      ∃ j ∈ writtenTargets root, ∃ pre post, t = targetTemplate j.1 (writeBranches pre j.2).1 ∧
        (writeRoot root).2 = pre ++ targetUses j ++ post := by
  obtain ⟨hall, honly, -⟩ := writeTargets_spec
    (fun j hj => isObject_of_writtenTargets hobj hj) []
  rw [WriteXslt, Option.map_eq_some_iff] at hsheet
  obtain ⟨callers, hcallers, rfl⟩ := hsheet
  rw [Sheet.templates, List.append_assoc, List.mem_append, List.mem_append] at ht
  rcases ht with ht | ht | ht
  · split at ht
    · cases ht
    · next hany =>
        refine Or.inl ⟨fun i hi htarget => hany ?_, List.mem_singleton.mp ht⟩
        exact List.any_eq_true.mpr ⟨i, hi, decide_eq_true htarget⟩
  · obtain ⟨j, hj, pre, post, heq, hsplit⟩ := honly t ht
    exact Or.inr ⟨j, hj, pre, post, heq, hall.trans hsplit⟩
  · obtain ⟨j, r, params, -, -, rfl⟩ := (mem_writeCaller_iff hcallers t).mp ht
    cases hmode

/-- There is a template for every target. -/
theorem exists_target (hobj : ∀ i ∈ root, i.2.isObject = true)
    (hsheet : WriteXslt root = some sheet) {i : Entry} (hi : i ∈ root) :
    ∃ branches, targetTemplate (GetTarget i.2) branches ∈ sheet.templates := by
  obtain ⟨j, hj, hkey⟩ := List.mem_map.mp ((keys_writtenTargets root _).mpr ⟨i, hi, rfl⟩)
  obtain ⟨branches, hmem⟩ := (writeTargets_spec
    (fun j hj => isObject_of_writtenTargets hobj hj) []).2.2 j hj
  rw [WriteXslt, Option.map_eq_some_iff] at hsheet
  obtain ⟨callers, -, rfl⟩ := hsheet
  rw [hkey] at hmem
  exact ⟨branches, List.mem_append_left _ (List.mem_append_right _ hmem)⟩

/-- There is one for all elements where no directive is for all classes. -/
theorem default_mem (hsheet : WriteXslt root = some sheet)
    (h : ∀ i ∈ root, GetTarget i.2 ≠ "*".toList) : xsltdefault ∈ sheet.templates := by
  rw [WriteXslt, Option.map_eq_some_iff] at hsheet
  obtain ⟨callers, -, rfl⟩ := hsheet
  have hany : (root.any fun i => GetTarget i.2 = "*".toList) = false :=
    List.any_eq_false.mpr fun i hi heq => h i hi (of_decide_eq_true heq)
  rw [Sheet.templates, hany]
  exact List.mem_append_left _ (List.mem_append_left _ (List.mem_singleton.mpr rfl))

/-- A class that no directive is for has the directives for all classes. -/
theorem chosen_wild {name : Text} (h : name = "*".toList ∨ ∀ i ∈ root, GetTarget i.2 ≠ name)
    (p : Focus) : chosen root p name =
      (root.filter fun i => GetTarget i.2 = "*".toList).find? (isThere p) := by
  rw [chosen, candidates, List.find?_append]
  rcases h with rfl | h
  · exact Option.or_self
  · have hnone : (root.filter fun i => GetTarget i.2 = name) = [] :=
      List.filter_eq_nil_iff.mpr fun i hi heq => h i hi (of_decide_eq_true heq)
    rw [hnone]
    rfl

variable (hobj : ∀ i ∈ root, i.2.isObject = true) (hsheet : WriteXslt root = some sheet)
  (hsep : Separate (writeRoot root).2) (hb : BuiltIn imported) {before after below : List Item}
  {name : Text} {attrs : List (Text × Text)} {children : List Item}
  (hbelow : Selects (processor sheet.templates imported)
    ⟨before, .element name attrs children, after⟩ [] none .content below)

include hobj hsheet hsep hb hbelow

/-- The template of a target carries out the first of its directives that is there. -/
theorem runs_target {j : Text × List Entry} (hj : j ∈ writtenTargets root)
    {pre post : List Entry} (hsplit : (writeRoot root).2 = pre ++ targetUses j ++ post) :
    Runs (processor sheet.templates imported) ⟨before, .element name attrs children, after⟩ [] []
      (targetTemplate j.1 (writeBranches pre j.2).1).body
      (outcome imported ⟨before, .element name attrs children, after⟩
        [.element name attrs (merged below)]
        (j.2.find? (isThere ⟨before, .element name attrs children, after⟩))) :=
  runs_between (makes_choose (branching_directives hb (calls_of_writeXslt hobj hsheet) hsep
    (isObject_of_writtenTargets hobj hj) hsplit hbelow)) (by decide) (by decide)

/-- An element is treated as the directives say. -/
theorem applies_element (params : Params) :
    Applies (processor sheet.templates imported) ⟨before, .element name attrs children, after⟩
      none params (outcome imported ⟨before, .element name attrs children, after⟩
        [.element name attrs (merged below)]
        (chosen root ⟨before, .element name attrs children, after⟩ name)) := by
  by_cases hnamed : name ≠ "*".toList ∧ ∃ i ∈ root, GetTarget i.2 = name
  · -- There is a template for the class.
    obtain ⟨hname, i, hi, rfl⟩ := hnamed
    obtain ⟨branches, hmem⟩ := exists_target hobj hsheet hi
    have hfound : ∃ t ∈ sheet.templates, t.name = some (GetTarget i.2) ∧ t.mode = none ∧
        find sheet.templates none (.element (GetTarget i.2) attrs children) = some t :=
      find_named ⟨_, hmem, if_neg hname, rfl⟩
    obtain ⟨t, ht, htname, htmode, hfind⟩ := hfound
    rcases unmoded_cases hobj hsheet ht htmode with ⟨-, rfl⟩ | ⟨j, hj, pre, post, rfl, hsplit⟩
    · cases htname
    · have hkey : j.1 ≠ "*".toList ∧ j.1 = GetTarget i.2 := by
        rw [targetTemplate] at htname
        split at htname
        · cases htname
        · next hstar => exact ⟨hstar, Option.some.inj htname⟩
      have hdirs := dirs_writtenTargets root hj
      rw [if_neg hkey.1, hkey.2] at hdirs
      rw [chosen, ← hdirs]
      exact applies_template hfind (runs_target hobj hsheet hsep hb hbelow hj hsplit)
  · -- There is none, and one for all classes is taken.
    have hnone : name = "*".toList ∨ ∀ i ∈ root, GetTarget i.2 ≠ name := by
      by_cases hname : name = "*".toList
      · exact Or.inl hname
      · exact Or.inr fun i hi htarget => hnamed ⟨hname, i, hi, htarget⟩
    have hother : ∀ t ∈ sheet.templates, t.mode = none → t.name ≠ some name := by
      intro t ht hmode htname
      rcases unmoded_cases hobj hsheet ht hmode with ⟨-, rfl⟩ | ⟨j, hj, pre, post, rfl, -⟩
      · cases htname
      · rw [targetTemplate] at htname
        split at htname
        · cases htname
        · next hstar =>
            obtain ⟨i, hi, htarget⟩ :=
              (keys_writtenTargets root j.1).mp (List.mem_map_of_mem hj)
            rw [Option.some.inj htname] at hstar htarget
            exact hnamed ⟨hstar, i, hi, htarget⟩
    have hany : ∃ t ∈ sheet.templates, t.name = none ∧ t.mode = none := by
      by_cases hwild : ∃ i ∈ root, GetTarget i.2 = "*".toList
      · obtain ⟨i, hi, htarget⟩ := hwild
        obtain ⟨branches, hmem⟩ := exists_target hobj hsheet hi
        rw [htarget] at hmem
        exact ⟨_, hmem, rfl, rfl⟩
      · exact ⟨xsltdefault, default_mem hsheet fun i hi htarget => hwild ⟨i, hi, htarget⟩, rfl, rfl⟩
    have hfound : ∃ t ∈ sheet.templates, t.name = none ∧ t.mode = none ∧
        find sheet.templates none (.element name attrs children) = some t :=
      find_any hother hany
    obtain ⟨t, ht, htname, htmode, hfind⟩ := hfound
    refine applies_template hfind ?_
    rw [chosen_wild hnone]
    rcases unmoded_cases hobj hsheet ht htmode with ⟨hwild, rfl⟩ | ⟨j, hj, pre, post, rfl, hsplit⟩
    · have hempty : (root.filter fun i => GetTarget i.2 = "*".toList) = [] :=
        List.filter_eq_nil_iff.mpr fun i hi heq => hwild i hi (of_decide_eq_true heq)
      rw [hempty]
      exact runs_between (makes_copyLine hbelow (by decide) (by decide) (by decide)) (by decide)
        (by decide)
    · have hkey : j.1 = "*".toList := by
        rw [targetTemplate] at htname
        split at htname
        · next hstar => exact hstar
        · cases htname
      have hdirs := dirs_writtenTargets root hj
      rw [if_pos hkey] at hdirs
      rw [← hdirs]
      exact runs_target hobj hsheet hsep hb hbelow hj hsplit

end Sheets

section Transformed

variable {root : List Entry} {sheet : Sheet} {imported : Applied (List Item)}

mutual

theorem applies_transform (hobj : ∀ i ∈ root, i.2.isObject = true)
    (hsheet : WriteXslt root = some sheet) (hsep : Separate (writeRoot root).2)
    (hb : BuiltIn imported) (params : Params) (before after : List Item) (n : Item) :
    Applies (processor sheet.templates imported) ⟨before, n, after⟩ none params
      (transform imported root before after n) := by
  match n with
  | .text s =>
      have htext := hb.text none params ⟨before, .text s, after⟩ s rfl
      rw [transform, ← htext]
      exact applies_imported (find_text s)
  | .comment s =>
      have hcomment := hb.comment none params ⟨before, .comment s, after⟩ s rfl
      rw [transform, ← hcomment]
      exact applies_imported (find_comment s)
  | .element name attrs children =>
      refine applies_element hobj hsheet hsep hb ?_ params
      rw [transformAll_eq]
      exact selects_content (applies_transformAll hobj hsheet hsep hb [] children)

theorem applies_transformAll (hobj : ∀ i ∈ root, i.2.isObject = true)
    (hsheet : WriteXslt root = some sheet) (hsep : Separate (writeRoot root).2)
    (hb : BuiltIn imported) (before ns : List Item) : ∀ q ∈ fociFrom before ns,
    Applies (processor sheet.templates imported) q none []
      (transform imported root q.before q.after q.node) := by
  match ns with
  | [] => exact List.forall_mem_nil _
  | n :: ns =>
      rw [fociFrom]
      intro q hq
      rcases List.mem_cons.mp hq with rfl | hq
      · exact applies_transform hobj hsheet hsep hb [] before ns n
      · exact applies_transformAll hobj hsheet hsep hb (n :: before) ns q hq

end

theorem writeRoot_uses (hobj : ∀ i ∈ root, i.2.isObject = true) :
    (writeRoot root).2 = (writtenTargets root).flatMap targetUses :=
  (writeTargets_spec (fun _ hj => isObject_of_writtenTargets hobj hj) []).1

/-- The directives of a target are some of the file, and there is at least one. -/
theorem dirs_mem {j : Text × List Entry} (hj : j ∈ writtenTargets root) :
    (∀ i ∈ j.2, i ∈ root) ∧ j.2 ≠ [] := by
  have hdirs := dirs_writtenTargets root hj
  refine ⟨fun i hi => ?_, fun hnil => ?_⟩
  · rw [hdirs] at hi
    split at hi
    · exact (List.mem_filter.mp hi).1
    · exact (List.mem_append.mp hi).elim (fun h => (List.mem_filter.mp h).1)
        fun h => (List.mem_filter.mp h).1
  · obtain ⟨i, hi, htarget⟩ := (keys_writtenTargets root j.1).mp (List.mem_map_of_mem hj)
    rw [hnil] at hdirs
    have hin : i ∈ root.filter fun i => GetTarget i.2 = j.1 :=
      List.mem_filter.mpr ⟨hi, decide_eq_true htarget⟩
    split at hdirs
    · next hstar =>
        rw [hstar, ← hdirs] at hin
        cases hin
    · rw [candidates, eq_comm, List.append_eq_nil_iff] at hdirs
      rw [hdirs.1] at hin
      cases hin

/-- A file that can be pasted gives a stylesheet that is read as it is written. -/
theorem legible_writeXslt (hroot : Proper root) :
    ∃ sheet, WriteXslt root = some sheet ∧ ∀ t ∈ sheet.templates, Legible t := by
  have hobj : ∀ i ∈ root, i.2.isObject = true := fun i hi => (hroot i hi).object
  have huses : ∀ r ∈ (writeRoot root).2,
      isNCName r.1 = true ∧ ∀ p ∈ r.2.entries, ProperParam p := by
    intro r hr
    rw [writeRoot_uses hobj] at hr
    obtain ⟨j, hj, hr⟩ := List.mem_flatMap.mp hr
    obtain ⟨i, hi, hr⟩ := List.mem_flatMap.mp hr
    exact (hroot i ((dirs_mem hj).1 i hi)).rules r hr
  obtain ⟨cs, hcs, hcalls⟩ := exists_writeCaller huses 0
  have hsheet : WriteXslt root = some ⟨root.any fun i => GetTarget i.2 = "*".toList,
      (writeRoot root).1, cs⟩ := by
    rw [WriteXslt, hcs]
    rfl
  refine ⟨_, hsheet, fun t ht => ?_⟩
  cases hmode : t.mode with
  | some m =>
      rcases List.mem_append.mp ht with ht | ht
      · rw [mode_of_mem hobj _ ht] at hmode
        cases hmode
      · exact hcalls t ht
  | none =>
      rcases unmoded_cases hobj hsheet ht hmode with ⟨-, rfl⟩ | ⟨j, hj, pre, post, rfl, -⟩
      · exact legible_xsltdefault
      · obtain ⟨hin, hne⟩ := dirs_mem hj
        obtain ⟨i, hi, htarget⟩ := (keys_writtenTargets root j.1).mp (List.mem_map_of_mem hj)
        exact legible_targetTemplate (htarget ▸ (hroot i hi).target)
          (fun i hi => hroot i (hin i hi)) hne

/-- The stylesheet for a file does with every program what the file says. -/
theorem writeXslt_transforms (hroot : Proper root) (hsep : Separate (writeRoot root).2) :
    ∃ sheet, WriteXslt root = some sheet ∧ (∀ t ∈ sheet.templates, Legible t) ∧
      ∀ imported, BuiltIn imported → ∀ params before after n,
        Applies (processor sheet.templates imported) ⟨before, n, after⟩ none params
          (transform imported root before after n) := by
  obtain ⟨sheet, hsheet, hlegible⟩ := legible_writeXslt hroot
  refine ⟨sheet, hsheet, hlegible, fun imported hb params before after n => ?_⟩
  exact applies_transform (fun i hi => (hroot i hi).object) hsheet hsep hb params before after n

end Transformed

section Names

theorem takeWhile_digits {s : Text} (h : ∀ c ∈ s.getLast?, c.isDigit = false) (n : Nat) :
    (s ++ Numeral.printNat n).reverse.takeWhile Char.isDigit = (Numeral.printNat n).reverse := by
  rw [List.reverse_append, List.takeWhile_append_of_pos fun c hc =>
    Numeral.isDigit_of_mem_printNat (List.mem_reverse.mp hc)]
  have hnone : s.reverse.takeWhile Char.isDigit = [] := by
    rw [← List.head?_reverse] at h
    cases hs : s.reverse with
    | nil => rfl
    | cons c t =>
        rw [hs] at h
        exact List.takeWhile_cons_of_neg (by rw [h c rfl]; exact Bool.false_ne_true)
  rw [hnone, List.append_nil]

/-- Modes are different if no name of a rule ends with a digit or begins like a mode. -/
theorem separate_of_names {uses : List Entry} (hdigit : ∀ r ∈ uses, ∀ c ∈ r.1.getLast?,
    c.isDigit = false) (hcall : ∀ r ∈ uses, ¬ "call_".toList <+: r.1) : Separate uses := by
  have hlast : ∀ r ∈ uses, ∀ c ∈ ("call_".toList ++ r.1).getLast?, c.isDigit = false := by
    intro r hr c hc
    rw [List.getLast?_append] at hc
    cases hend : r.1.getLast? with
    | none =>
        rw [hend] at hc
        cases hc
        rfl
    | some d =>
        rw [hend] at hc
        cases hc
        exact hdigit r hr _ hend
  refine ⟨fun {i j r s} hr hs heq => ?_, fun {i j r s} hr hs heq => ?_⟩
  · have hdigits := congrArg (fun m => m.reverse.takeWhile Char.isDigit) heq
    simp only [callMode] at hdigits
    rw [takeWhile_digits (hlast r (List.mem_of_getElem? hr)),
      takeWhile_digits (hlast s (List.mem_of_getElem? hs)), List.reverse_inj] at hdigits
    have hnat := congrArg (fun m => Nat.ofDigitChars 10 m 0) hdigits
    simpa only [Numeral.ofDigitChars_printNat] using hnat
  · refine hcall s (List.mem_of_getElem? hs) ⟨r.1 ++ Numeral.printNat i, ?_⟩
    rw [← heq, callMode, List.append_assoc]

end Names

section Example

/-- Two directives that put a text in front of a statement, one of them for all classes. -/
def multidefs : List Entry :=
  [("xev loop_tag".toList, .object [("insert-before".toList, .string "!$test1".toList),
      ("target".toList, .string "*".toList)]),
    ("xev loop_tag2".toList, .object [("insert-before".toList, .string "!$test2".toList),
      ("target".toList, .string "SgIfStmt".toList)])]

/-- No other stylesheets. -/
def builtIn : Applied (List Item) := fun _ _ p =>
  match p.node with
  | .text s => [.text s]
  | _ => []

def pragmaTag2 : Item :=
  .element "SgPragmaDeclaration".toList []
    [.element "SgPragma".toList [("pragma".toList, "xev loop_tag2".toList)] []]

def ifStmt : Item := .element "SgIfStmt".toList [] []

theorem multidefs_transforms : ∃ sheet, WriteXslt multidefs = some sheet ∧
    Applies (processor sheet.templates builtIn)
      ⟨[], .element "SgBasicBlock".toList [] [pragmaTag2, ifStmt], []⟩ none []
      [.element "SgBasicBlock".toList []
        [pragmaTag2, .text "\n!$test2\n        ".toList, ifStmt]] := by
  have hproper : Proper multidefs := by
    intro i hi
    rw [multidefs, List.mem_cons, List.mem_singleton] at hi
    rcases hi with rfl | rfl
    · exact ⟨rfl, ⟨by decide, by decide⟩, Or.inl rfl, by decide, by decide, by decide,
        List.forall_mem_nil _⟩
    · exact ⟨rfl, ⟨by decide, by decide⟩, Or.inr (by decide), by decide, by decide, by decide,
        List.forall_mem_nil _⟩
  have hsep : Separate (writeRoot multidefs).2 :=
    separate_of_names (List.forall_mem_nil _) (List.forall_mem_nil _)
  have hb : BuiltIn builtIn := ⟨fun _ _ p s hs => by simp [builtIn, hs],
    fun _ _ p s hs => by simp [builtIn, hs]⟩
  obtain ⟨sheet, hsheet, -, hall⟩ := writeXslt_transforms hproper hsep
  exact ⟨sheet, hsheet, hall builtIn hb [] [] [] _⟩

end Example

section Shadowed

variable {root : List Entry}

theorem isThere_iff {p : Focus} {name : Text} (hp : pragmasBefore p.before = [name]) (i : Entry) :
    isThere p i = true ↔ i.1 = "*".toList ∨ i.1 = name := by
  unfold isThere conditionOf
  split
  · next hstar => exact ⟨fun _ => Or.inl hstar, fun _ => rfl⟩
  · next hstar =>
      rw [conditionHolds, hp, List.contains_iff_mem, List.mem_singleton]
      exact ⟨Or.inr, fun h => h.resolve_left hstar⟩

theorem pairwise_filter (hsorted : (root.map Prod.fst).Pairwise (· < ·)) (q : Entry → Bool) :
    ((root.filter q).map Prod.fst).Pairwise (· < ·) :=
  hsorted.sublist (List.filter_sublist.map _)

/-- Names are different. -/
theorem eq_of_name (hsorted : (root.map Prod.fst).Pairwise (· < ·)) {i j : Entry} (hi : i ∈ root)
    (hj : j ∈ root) (h : i.1 = j.1) : i = j := by
  have hnodup : (root.map Prod.fst).Nodup := hsorted.imp fun hlt heq => by
    rw [heq] at hlt
    exact List.lt_irrefl _ hlt
  exact List.inj_on_of_nodup_map hnodup hi hj h

/-- Among directives in the order of their names, one is the first that is there if none with a
    star is in front of it. -/
theorem find?_isThere (hsorted : (root.map Prod.fst).Pairwise (· < ·)) {p : Focus} {d : Entry}
    (hd : d ∈ root) (hp : pragmasBefore p.before = [d.1]) :
    root.find? (isThere p) = some d ↔ ∀ s ∈ root, s.1 = "*".toList → ¬ s.1 < d.1 := by
  constructor
  · intro hfind s hs hstar hlt
    obtain ⟨-, as, bs, rfl, has⟩ := List.find?_eq_some_iff_append.mp hfind
    rw [List.map_append, List.map_cons, List.pairwise_append, List.pairwise_cons] at hsorted
    rcases List.mem_append.mp hs with hs | hs
    · have hno := has s hs
      rw [(isThere_iff hp s).mpr (Or.inl hstar)] at hno
      cases hno
    · rcases List.mem_cons.mp hs with rfl | hs
      · exact List.lt_irrefl _ hlt
      · exact List.lt_asymm hlt (hsorted.2.1.1 s.1 (List.mem_map_of_mem hs))
  · intro hfree
    obtain ⟨as, bs, rfl⟩ := List.append_of_mem hd
    refine List.find?_eq_some_iff_append.mpr
      ⟨(isThere_iff hp d).mpr (Or.inr rfl), as, bs, rfl, fun a ha => ?_⟩
    rw [List.map_append, List.map_cons, List.pairwise_append] at hsorted
    have hlt : a.1 < d.1 := hsorted.2.2 a.1 (List.mem_map_of_mem ha) d.1 List.mem_cons_self
    rw [Bool.not_eq_true', ← Bool.not_eq_true, isThere_iff hp]
    rintro (hstar | heq)
    · exact hfree a (List.mem_append_left _ ha) hstar hlt
    · rw [heq] at hlt
      exact List.lt_irrefl _ hlt

/-- A statement behind a pragma. -/
theorem exists_pragma (name : Text) : ∃ p : Focus, pragmasBefore p.before = [name] :=
  ⟨⟨[.element [] [] [.element "SgPragma".toList [("pragma".toList, name)] []]], .text [], []⟩, rfl⟩

end Shadowed

end XevXml.Xsltgen
