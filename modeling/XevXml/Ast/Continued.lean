import XevXml.Ast.Preproc

/-!
# Joined Directives

When the search for a continued directive finds all of it, and nothing else. The flags of a
search tell which lines it has come to: all lines on the way are directives, so an ordinary
comment between two lines of a directive hides the second one, and a flagged line has its mark
where it is looked for. If all lines are flagged, the length of what is found tells whether a
comment has been taken for a text, and in fixed form no flag can have been set in the search
elsewhere, which is made even if the directive is complete.

## Main definitions

* `Grows`, `Flags`: What the flags of a search have in common.
* `Reached`: A line that a search can come to.
* `Untaken`: The first lines of successors are not taken.

## Theorems

* `findLines_flags`, `findContinuedDirective_flags`: The lines that are flagged.
* `goOn_chain`: Legible lines that follow each other are joined.
* `findLines_of_chain`: What lines that follow each other give if there is a result.
* `joined_iff`: When a directive is found completely and once.
-/

namespace XevXml.Preproc

section Flags

/-- A search has flagged lines at places with a property only, and has taken no flag away. -/
def Grows (P : Place → Prop) (s s' : Search) : Prop :=
  ∃ new, s'.transformation = s.transformation ++ new ∧ ∀ p ∈ new, P p

variable {P Q : Place → Prop} {s s' s'' : Search}

theorem Grows.refl (P : Place → Prop) (s : Search) : Grows P s s :=
  ⟨[], (List.append_nil _).symm, List.forall_mem_nil _⟩

theorem Grows.trans (h : Grows P s s') (h' : Grows P s' s'') : Grows P s s'' := by
  rcases h with ⟨new, heq, hnew⟩
  rcases h' with ⟨new', heq', hnew'⟩
  refine ⟨new ++ new', ?_, fun p hp => ?_⟩
  · rw [heq', heq, List.append_assoc]
  · rcases List.mem_append.mp hp with hp | hp
    · exact hnew p hp
    · exact hnew' p hp

theorem Grows.isPrefix (h : Grows P s s') : s.transformation <+: s'.transformation := by
  rcases h with ⟨new, heq, -⟩
  exact ⟨new, heq.symm⟩

theorem Grows.of_mem (h : Grows P s s') {p : Place} (hp : p ∈ s'.transformation)
    (hnot : p ∉ s.transformation) : P p := by
  rcases h with ⟨new, heq, hnew⟩
  rw [heq, List.mem_append] at hp
  exact hnew p (hp.resolve_left hnot)

/-- The result of a search has flagged lines at places with a property only. -/
def Flags (P : Place → Prop) (search : Search → Option (Text × Search)) : Prop :=
  ∀ s t s', search s = some (t, s') → Grows P s s'

theorem Flags.mono {search : Search → Option (Text × Search)} (h : Flags P search)
    (hPQ : ∀ p, P p → Q p) : Flags Q search := by
  intro s t s' hs
  rcases h s t s' hs with ⟨new, heq, hnew⟩
  exact ⟨new, heq, fun p hp => hPQ p (hnew p hp)⟩

/-- What the last part of the function can do. -/
theorem goOn_cases {isFixed more : Bool} {elsewhere next : Search → Option (Text × Search)}
    {ret t : Text} (h : goOn isFixed elsewhere next more ret s = some (t, s')) :
    (more = false ∧ t = ret ∧ s' = s) ∨
      more = true ∧ ∃ contdir s₁, next s = some (contdir, s₁) ∧
        ((isFixed = false ∧ t = ret ++ contdir ∧ s' = s₁) ∨
          ∃ found, elsewhere s₁ = some (found, s') ∧ t = ret ++ contdir ++ found) := by
  rw [goOn] at h
  by_cases hmore : more = false
  · rw [if_pos hmore, Option.some.injEq, Prod.mk.injEq] at h
    exact Or.inl ⟨hmore, h.1.symm, h.2.symm⟩
  · rw [if_neg hmore, Option.bind_eq_some_iff] at h
    rcases h with ⟨⟨contdir, s₁⟩, h₁, h⟩
    refine Or.inr ⟨Bool.not_eq_false _ ▸ hmore, contdir, s₁, h₁, ?_⟩
    by_cases hfree : isFixed = false ∧ contdir ≠ []
    · simp only [if_pos hfree, Option.some.injEq, Prod.mk.injEq] at h
      exact Or.inl ⟨hfree.1, h.1.symm, h.2.symm⟩
    · simp only [if_neg hfree, Option.map_eq_some_iff, Prod.mk.injEq] at h
      rcases h with ⟨⟨found, s₂⟩, h₂, rfl, rfl⟩
      exact Or.inr ⟨found, h₂, rfl⟩

theorem Flags.goOn {isFixed more : Bool} {elsewhere next : Search → Option (Text × Search)}
    {ret : Text} (helse : Flags P elsewhere) (hnext : Flags P next) :
    Flags P (goOn isFixed elsewhere next more ret) := by
  intro s t s' h
  rcases goOn_cases h with ⟨-, -, rfl⟩ | ⟨-, contdir, s₁, h₁, h⟩
  · exact Grows.refl P s'
  · have hgrow := hnext s contdir s₁ h₁
    rcases h with ⟨-, -, rfl⟩ | ⟨found, h₂, -⟩
    · exact hgrow
    · exact hgrow.trans (helse s₁ found s' h₂)

theorem grows_flag_comment {cont : Bool} {p : Place} {cmt : Text} (h : cont = true → P p) :
    Grows P s ((s.flag cont p).comment cont cmt) := by
  cases cont with
  | true => exact ⟨[p], rfl, List.forall_mem_singleton.mpr (h rfl)⟩
  | false => exact ⟨[], (List.append_nil _).symm, List.forall_mem_nil _⟩

/-- The lines flagged among those of a node are marked, and all lines passed on the way to them
    are directives. -/
theorem findLines_flags {isFixed : Bool} {path : List Nat}
    {elsewhere : Search → Option (Text × Search)} (helse : Flags P elsewhere) (cont : Bool)
    (index : Nat) (info : List PreprocessingInfo)
    (hown : ∀ j ppi, info[j]? = some ppi →
      (∀ k c, k < j → info[k]? = some c → isDirective isFixed c = true) →
      isMarked isFixed ppi.string = true → P (path, index + j)) :
    Flags P (findLines isFixed path elsewhere cont index info) := by
  induction info generalizing cont index with
  | nil =>
      intro s t s' h
      rw [findLines, Option.some.injEq, Prod.mk.injEq] at h
      exact h.2 ▸ Grows.refl P s
  | cons ppi info ih =>
      intro s t s' h
      rw [findLines] at h
      split at h
      · rw [Option.some.injEq, Prod.mk.injEq] at h
        exact h.2 ▸ Grows.refl P s
      · rw [Option.bind_eq_some_iff] at h
        rcases h with ⟨f, hf, h⟩
        -- The lines behind this one are reached if it is a directive.
        have hnext : f ≠ .stop →
            Flags P (findLines isFixed path elsewhere true (index + 1) info) := by
          intro hstop
          refine ih true (index + 1) fun j c hj hbefore hmark => ?_
          rw [Nat.add_assoc, Nat.add_comm 1]
          refine hown (j + 1) c hj (fun k c' hk hc' => ?_) hmark
          rcases k with _ | k
          · rw [List.getElem?_cons_zero, Option.some.injEq] at hc'
            exact hc' ▸ isDirective_of_front hf hstop
          · exact hbefore k c' (by omega) hc'
        cases f with
        | stop =>
            rw [Option.some.injEq, Prod.mk.injEq] at h
            exact h.2 ▸ Grows.refl P s
        | skip => exact hnext Front.noConfusion s t s' h
        | text ret =>
            rw [Option.bind_eq_some_iff] at h
            rcases h with ⟨⟨more, ret', cmt⟩, -, h⟩
            refine Grows.trans (grows_flag_comment fun hcont => ?_)
              (helse.goOn (hnext Front.noConfusion) _ t s' h)
            subst hcont
            exact hown 0 ppi rfl (fun k c hk => absurd hk (Nat.not_lt_zero k))
              (isMarked_of_front hf)

mutual

/-- The lines flagged by a search from a node on are at the node or below it. -/
theorem findBefore_flags (isFixed : Bool) (path : List Nat) :
    ∀ n, Flags (fun p => path.length ≤ p.1.length) (findBefore isFixed path n)
  | .other => by
      intro s t s' h
      rw [findBefore, Option.some.injEq, Prod.mk.injEq] at h
      exact h.2 ▸ Grows.refl _ s
  | .located info successors => by
      intro s t s' h
      rw [findBefore] at h
      refine findLines_flags ?_ true 0 info (fun _ _ _ _ _ => Nat.le_refl _) s t s' h
      exact (findSuccessors_flags isFixed path 0 successors).mono fun _ hp => Nat.le_of_lt hp

/-- The lines flagged by a search in the successors of a node are below the node. -/
theorem findSuccessors_flags (isFixed : Bool) (path : List Nat) (ii : Nat) :
    ∀ ns, Flags (fun p => path.length < p.1.length) (findSuccessors isFixed path ii ns)
  | [] => by
      intro s t s' h
      rw [findSuccessors, Option.some.injEq, Prod.mk.injEq] at h
      exact h.2 ▸ Grows.refl _ s
  | n :: ns => by
      intro s t s' h
      rw [findSuccessors, Option.bind_eq_some_iff] at h
      rcases h with ⟨⟨cont2, s₁⟩, h₁, h⟩
      have hgrow : Grows (fun p => path.length < p.1.length) s s₁ :=
        (findBefore_flags isFixed (ii :: path) n).mono (fun _ hp => hp) s cont2 s₁ h₁
      by_cases hfound : cont2 ≠ []
      · simp only [if_pos hfound, Option.some.injEq, Prod.mk.injEq] at h
        exact h.2 ▸ hgrow
      · simp only [if_neg hfound] at h
        exact hgrow.trans (findSuccessors_flags isFixed path (ii + 1) ns s₁ t s' h)

end

/-- A line that a search from an index on can reach and flag. -/
def Reached (isFixed : Bool) (info : List PreprocessingInfo) (index j : Nat) : Prop :=
  ∃ ppi, info[j]? = some ppi ∧ isMarked isFixed ppi.string = true ∧
    ∀ k c, index ≤ k → k < j → info[k]? = some c → isDirective isFixed c = true

variable {isFixed : Bool} {path : List Nat} {info : List PreprocessingInfo}

/-- The lines flagged elsewhere are not among those of the node, or a search from an index on
    can reach them, too. -/
theorem elsewhere_flags (pos : RelativePosition) (successors : List Node) (index : Nat) :
    Flags (fun p => p.1 = path → Reached isFixed info index p.2)
      (elsewhere isFixed pos path info successors) := by
  have hbelow : Flags (fun p => p.1 = path → Reached isFixed info index p.2)
      (findSuccessors isFixed path 0 successors) :=
    (findSuccessors_flags isFixed path 0 successors).mono fun p hp heq =>
      absurd (congrArg List.length heq) (Nat.ne_of_gt hp)
  cases pos with
  | before => exact hbelow
  | inside =>
      intro s t s' h
      rw [elsewhere, Option.some.injEq, Prod.mk.injEq] at h
      exact h.2 ▸ Grows.refl _ s
  | after =>
      intro s t s' h
      rw [elsewhere, findBefore] at h
      refine findLines_flags hbelow true 0 info (fun j ppi hj hbefore hmark _ => ?_) s t s' h
      rw [Nat.zero_add]
      exact ⟨ppi, hj, hmark, fun k c _ hk hc => hbefore k c hk hc⟩

/-- The lines of a statement that are flagged can be reached from the first line. -/
theorem findContinuedDirective_flags (pos : RelativePosition) (successors : List Node)
    (cont : Bool) (index : Nat) :
    Flags (fun p => p.1 = path → Reached isFixed info index p.2)
      (findContinuedDirective isFixed pos path info successors cont index) := by
  refine findLines_flags (elsewhere_flags pos successors index) cont index _ ?_
  intro j ppi hj hbefore hmark _
  rw [List.getElem?_drop] at hj
  refine ⟨ppi, hj, hmark, fun k c hindex hk hc => ?_⟩
  refine hbefore (k - index) c (by omega) ?_
  rw [List.getElem?_drop, Nat.add_sub_cancel' hindex]
  exact hc

/-- A line that has been flagged is not written. -/
theorem writePragmaAt_of_flagged {flagged : List Place} {index : Nat} (pos : RelativePosition)
    (successors : List Node) (h : (path, index) ∈ flagged) :
    writePragmaAt isFixed pos path info successors index flagged = some ([], flagged) := by
  unfold writePragmaAt
  cases hppi : info[index]? with
  | none => rfl
  | some ppi =>
      have hdrop : info.drop index = ppi :: info.drop (index + 1) := by
        rcases List.getElem?_eq_some_iff.mp hppi with ⟨hlt, hget⟩
        rw [List.drop_eq_getElem_cons hlt, hget]
      have hnone : findContinuedDirective isFixed pos path info successors false index
          ⟨[], [], flagged⟩ = some ([], ⟨[], [], flagged⟩) := by
        rw [findContinuedDirective, hdrop, findLines, if_pos h]
      simp only [hnone, Option.bind_some, if_true, ite_self]

end Flags

section Chains

variable {isFixed : Bool} {path : List Nat} {E : Search → Option (Text × Search)}

/-- The state behind segments the first of which begins at an index. -/
def advance (isFixed : Bool) (path : List Nat) (index : Nat) (segments : List Segment)
    (s : Search) : Search where
  cmtBefore := s.cmtBefore
  cmtAfter := s.cmtAfter ++ segments.flatMap fun g => (readNext isFixed g.line).comment
  transformation := s.transformation ++ places path index segments

/-- The texts of segments. -/
def texts (isFixed : Bool) (segments : List Segment) : Text :=
  segments.flatMap fun g => (readNext isFixed g.line).text

theorem texts_nil : texts isFixed [] = [] := rfl

theorem texts_cons (g : Segment) (segments : List Segment) :
    texts isFixed (g :: segments) = (readNext isFixed g.line).text ++ texts isFixed segments :=
  List.flatMap_cons

theorem advance_nil (index : Nat) (s : Search) : advance isFixed path index [] s = s := by
  simp only [advance, places, List.flatMap_nil, List.append_nil]

theorem places_adjacent {g : Segment} (h : g.comments = []) (index : Nat)
    (segments : List Segment) :
    places path index (g :: segments) = (path, index) :: places path (index + 1) segments := by
  rw [places, h, List.length_nil, Nat.add_zero]

theorem info_adjacent {g : Segment} (h : g.comments = []) (segments : List Segment)
    (rest : List PreprocessingInfo) :
    (g :: segments).flatMap Segment.info ++ rest =
      g.line :: (segments.flatMap Segment.info ++ rest) := by
  rw [List.flatMap_cons, Segment.info, h, List.nil_append, List.append_assoc]
  rfl

theorem advance_adjacent {g : Segment} (h : g.comments = []) (index : Nat)
    (segments : List Segment) (s : Search) :
    advance isFixed path index (g :: segments) s =
      advance isFixed path (index + 1) segments
        ((s.flag true (path, index)).comment true (readNext isFixed g.line).comment) := by
  simp only [advance, places_adjacent h, List.flatMap_cons, Search.flag, Search.comment, if_true,
    List.append_assoc, List.singleton_append]

/-- The places of segments are not in front of the index. -/
theorem le_of_mem_places {p : Place} {index : Nat} {segments : List Segment}
    (h : p ∈ places path index segments) : p.1 = path ∧ index ≤ p.2 := by
  induction segments generalizing index with
  | nil => exact absurd h List.not_mem_nil
  | cons g segments ih =>
      rw [places, List.mem_cons] at h
      rcases h with rfl | h
      · exact ⟨rfl, Nat.le_add_right _ _⟩
      · rcases ih h with ⟨hpath, hle⟩
        exact ⟨hpath, by omega⟩

/-- The lines of the segments behind a line are not flagged with it. -/
theorem unflagged_adjacent {g : Segment} {segments : List Segment} {index : Nat} {s : Search}
    (cmt : Text) (hg : g.comments = [])
    (h : ∀ p ∈ places path index (g :: segments), p ∉ s.transformation) :
    ∀ p ∈ places path (index + 1) segments,
      p ∉ ((s.flag true (path, index)).comment true cmt).transformation := by
  intro p hp hmem
  rw [places_adjacent hg] at h
  rcases List.mem_append.mp hmem with hmem | hmem
  · exact h p (List.mem_cons_of_mem _ hp) hmem
  · rw [List.mem_singleton] at hmem
    have hle := (le_of_mem_places hp).2
    rw [hmem] at hle
    exact absurd hle (Nat.not_succ_le_self index)

/-- The search takes a line that continues another one. -/
theorem findLines_continuation {ppi : PreprocessingInfo} {index : Nat} {s : Search}
    (h : isContinuation isFixed ppi = true) (hmark : isMarked isFixed ppi.string = true)
    (hflag : (path, index) ∉ s.transformation) (info : List PreprocessingInfo) :
    findLines isFixed path E true index (ppi :: info) s =
      (cut isFixed (behindMark isFixed ppi.string)).bind fun c =>
        goOn isFixed E (findLines isFixed path E true (index + 1) info) c.1 c.2.1
          ((s.flag true (path, index)).comment true c.2.2) := by
  rw [findLines, if_neg hflag, front_continuation h hmark]
  rfl

/-- In fixed form the search ends behind the last continued line. -/
theorem findLines_ends {rest : List PreprocessingInfo}
    (h : ∀ ppi, rest.find? (isDirective true) = some ppi → isContinuation true ppi = false)
    (index : Nat) (s : Search) : findLines true path E true index rest s = some ([], s) := by
  cases rest with
  | nil => rfl
  | cons ppi rest =>
      have hstop : front true true ppi.string = some .stop := by
        by_cases hdir : isDirective true ppi = true
        · exact front_of_not_continuation (h ppi (List.find?_cons_of_pos hdir))
        · exact front_of_not_directive (Bool.not_eq_true _ ▸ hdir)
      rw [findLines, hstop, Option.bind_some]
      exact ite_self _

/-- Lines that follow each other, are marked and legible are joined. -/
theorem goOn_chain {r : Reading} {segments : List Segment} {index : Nat} {s : Search}
    {rest : List PreprocessingInfo} (hcont : Continues isFixed r segments)
    (hadj : ∀ g ∈ segments, g.comments = [])
    (hmark : ∀ g ∈ segments, isMarked isFixed g.line.string = true)
    (hleg : ∀ g ∈ segments, Legible isFixed (behindMark isFixed g.line.string))
    (hflag : ∀ p ∈ places path index segments, p ∉ s.transformation)
    (hends : isFixed = true → ∀ ppi, rest.find? (isDirective isFixed) = some ppi →
      isContinuation isFixed ppi = false)
    (hE : isFixed = true → ∀ s', s'.transformation = s.transformation ++
      places path index segments →
      E s' = some ([], s')) :
    goOn isFixed E (findLines isFixed path E true index (segments.flatMap Segment.info ++ rest))
        (isFixed || r.continued) r.text s =
      some (r.text ++ texts isFixed segments, advance isFixed path index segments s) := by
  induction segments generalizing r index s with
  | nil =>
      rw [Continues] at hcont
      rw [advance_nil, texts_nil, List.append_nil, hcont, Bool.or_false, List.flatMap_nil,
        List.nil_append, goOn]
      cases isFixed with
      | false => rfl
      | true =>
          rw [if_neg Bool.true_eq_false.mp, findLines_ends (hends rfl), Option.bind_some]
          simp only [Bool.true_eq_false, false_and, if_false]
          rw [hE rfl s (List.append_nil _).symm]
          simp only [Option.map_some, List.append_nil]
  | cons g segments ih =>
      rcases hcont with ⟨hmore, -, hg, hcont⟩
      have hgadj := hadj g List.mem_cons_self
      have hgleg := hleg g List.mem_cons_self
      have hgflag : (path, index) ∉ s.transformation :=
        hflag _ (places_adjacent hgadj index segments ▸ List.mem_cons_self)
      -- The lines behind the first one are joined.
      have hflag' := unflagged_adjacent (readNext isFixed g.line).comment hgadj hflag
      have hnext := ih hcont (fun x hx => hadj x (List.mem_cons_of_mem _ hx))
        (fun x hx => hmark x (List.mem_cons_of_mem _ hx))
        (fun x hx => hleg x (List.mem_cons_of_mem _ hx)) hflag' fun hfix s' hs' => hE hfix s' (by
          rw [hs', places_adjacent hgadj]
          simp only [Search.flag, Search.comment, if_true, List.append_assoc,
            List.singleton_append])
      have hfind : findLines isFixed path E true index
          ((g :: segments).flatMap Segment.info ++ rest) s =
            some ((readNext isFixed g.line).text ++ texts isFixed segments,
              advance isFixed path index (g :: segments) s) := by
        rw [info_adjacent hgadj, findLines_continuation hg (hmark g List.mem_cons_self) hgflag,
          cut_legible hgleg, Option.bind_some, advance_adjacent hgadj, ← hnext]
        rfl
      have hmore' : (isFixed || r.continued) = true := by
        cases isFixed with
        | true => rfl
        | false => exact hmore rfl
      rw [goOn, hmore', if_neg Bool.true_eq_false.mp, hfind, Option.bind_some]
      rw [← texts_cons]
      cases isFixed with
      | false =>
          have hne : texts false (g :: segments) ≠ [] := by
            rw [texts_cons]
            exact List.append_ne_nil_of_left_ne_nil (text_ne_nil_of_legible hgleg) _
          exact if_pos ⟨rfl, hne⟩
      | true =>
          simp only [Bool.true_eq_false, false_and, if_false]
          rw [hE rfl _ rfl, Option.map_some, List.append_nil]

/-- If lines that follow each other and are marked give a result, it is at least as long as their
    texts, and longer if one of them is not legible, and all lines are flagged. -/
theorem findLines_of_chain {r : Reading} {t : Text} {segments : List Segment} {index : Nat}
    {s s' : Search} {rest : List PreprocessingInfo} (hcont : Continues isFixed r segments)
    (hadj : ∀ g ∈ segments, g.comments = [])
    (hmark : ∀ g ∈ segments, isMarked isFixed g.line.string = true)
    (hflag : ∀ p ∈ places path index segments, p ∉ s.transformation)
    (hE : Flags (fun _ => True) E)
    (h : findLines isFixed path E true index (segments.flatMap Segment.info ++ rest) s =
      some (t, s')) :
    (texts isFixed segments).length ≤ t.length ∧
      (t.length ≤ (texts isFixed segments).length →
        ∀ g ∈ segments, Legible isFixed (behindMark isFixed g.line.string)) ∧
      s.transformation ++ places path index segments <+: s'.transformation := by
  induction segments generalizing r t index s s' with
  | nil =>
      have hgrow := findLines_flags hE true index _ (fun _ _ _ _ _ => trivial) s t s' h
      refine ⟨Nat.zero_le _, fun _ => List.forall_mem_nil _, ?_⟩
      rw [places, List.append_nil]
      exact hgrow.isPrefix
  | cons g segments ih =>
      rcases hcont with ⟨-, -, hg, hcont⟩
      have hgadj := hadj g List.mem_cons_self
      have hgflag : (path, index) ∉ s.transformation :=
        hflag _ (places_adjacent hgadj index segments ▸ List.mem_cons_self)
      rw [info_adjacent hgadj, findLines_continuation hg (hmark g List.mem_cons_self) hgflag,
        Option.bind_eq_some_iff] at h
      rcases h with ⟨⟨more, ret, cmt⟩, hcut, h⟩
      dsimp only at h
      have hleg := legible_or_of_cut hcut
      -- The next line is looked for if there is one.
      have hmore : segments ≠ [] → more = true := by
        intro hne
        cases isFixed with
        | true => exact more_of_cut_fixed hcut
        | false =>
            rcases List.exists_cons_of_ne_nil hne with ⟨x, xs, hxs⟩
            rw [hxs] at hcont
            have hread : (read false [] (behindMark false g.line.string)).continued = true :=
              hcont.1 rfl
            rcases hleg with hleg | ⟨-, -, hnot⟩
            · rw [cut_legible hleg, Option.some.injEq, Prod.mk.injEq, hread] at hcut
              exact hcut.1.symm
            · rw [hread] at hnot
              exact Bool.noConfusion hnot
      -- What is found behind the line has the length of the other texts, or more.
      have hrest : ∃ n, ret.length + n ≤ t.length ∧ (texts isFixed segments).length ≤ n ∧
          (n ≤ (texts isFixed segments).length →
            ∀ g ∈ segments, Legible isFixed (behindMark isFixed g.line.string)) ∧
          (s.transformation ++ [(path, index)]) ++ places path (index + 1) segments <+:
            s'.transformation := by
        rcases goOn_cases h with ⟨hfalse, rfl, rfl⟩ | ⟨-, contdir, s₁, hnext, hend⟩
        · have hnil : segments = [] := by
            by_contra hne
            rw [hmore hne] at hfalse
            exact Bool.noConfusion hfalse
          subst hnil
          refine ⟨0, Nat.le_refl _, Nat.le_refl _, fun _ => List.forall_mem_nil _, ?_⟩
          rw [places, List.append_nil]
          exact List.prefix_rfl
        · rcases ih hcont (fun x hx => hadj x (List.mem_cons_of_mem _ hx))
            (fun x hx => hmark x (List.mem_cons_of_mem _ hx)) (unflagged_adjacent cmt hgadj hflag)
            hnext with ⟨hlen, hall, hbegin⟩
          rcases hend with ⟨-, rfl, rfl⟩ | ⟨found, hfound, rfl⟩
          · exact ⟨contdir.length, List.length_append.ge, hlen, hall, hbegin⟩
          · refine ⟨contdir.length, ?_, hlen, hall, hbegin.trans (hE s₁ found s' hfound).isPrefix⟩
            rw [List.length_append, List.length_append]
            omega
      rcases hrest with ⟨n, hlen, htexts, hall, hflags⟩
      rw [texts_cons, List.length_append, places_adjacent hgadj]
      have hflags' : s.transformation ++ (path, index) :: places path (index + 1) segments <+:
          s'.transformation := by
        rw [List.append_assoc] at hflags
        exact hflags
      -- The line adds its text, or a comment that is taken for one.
      rcases hleg with hleg | ⟨hne, hnil, -⟩
      · rw [cut_legible hleg, Option.some.injEq, Prod.mk.injEq, Prod.mk.injEq] at hcut
        have hret : (readNext isFixed g.line).text = ret := hcut.2.1
        rw [hret]
        exact ⟨by omega, fun hle => List.forall_mem_cons.mpr ⟨hleg, hall (by omega)⟩, hflags'⟩
      · have hret : (readNext isFixed g.line).text = [] := hnil
        have hpos := List.length_pos_of_ne_nil hne
        rw [hret, List.length_nil]
        exact ⟨by omega, fun hle => absurd hle (by omega), hflags'⟩

end Chains

section Joining

variable {isFixed : Bool} {path : List Nat} {s : Search}

/-- A search that begins at a line that it does not take finds nothing. -/
theorem findLines_of_not_takes {E : Search → Option (Text × Search)}
    {info : List PreprocessingInfo} {index : Nat} {s : Search}
    (h : ∀ ppi, info.head? = some ppi → ¬ takes true s.transformation (path, index) ppi) :
    findLines true path E true index info s = some ([], s) := by
  cases info with
  | nil => rfl
  | cons ppi info =>
      rw [findLines]
      by_cases hflag : (path, index) ∈ s.transformation
      · rw [if_pos hflag]
      · have hstop : front true true ppi.string = some .stop := by
          by_cases hdir : isDirective true ppi = true
          · have hmark : isMarked true ppi.string ≠ true := fun hmark =>
              h ppi rfl ⟨hflag, hdir, hmark⟩
            rw [isDirective, Option.isSome_iff_exists] at hdir
            rcases hdir with ⟨d, hd⟩
            rw [front, hd]
            simp only [Bool.true_eq_false, if_false, if_neg hmark, if_true]
          · exact front_of_not_directive (Bool.not_eq_true _ ▸ hdir)
        rw [if_neg hflag, hstop, Option.bind_some]

/-- A search that takes its first line flags it. -/
theorem findLines_of_takes {E : Search → Option (Text × Search)} {ppi : PreprocessingInfo}
    {info : List PreprocessingInfo} {index : Nat} {s s' : Search} {t : Text}
    (hE : Flags (fun _ => True) E) (htakes : takes true s.transformation (path, index) ppi)
    (h : findLines true path E true index (ppi :: info) s = some (t, s')) :
    s'.transformation ≠ s.transformation := by
  rw [findLines, if_neg htakes.1, Option.bind_eq_some_iff] at h
  rcases h with ⟨f, hf, h⟩
  have htext : ∃ ret, f = .text ret := by
    have hdir := htakes.2.1
    rw [isDirective, Option.isSome_iff_exists] at hdir
    rcases hdir with ⟨d, hd⟩
    rw [front, hd] at hf
    simp only [Bool.true_eq_false, if_false, htakes.2.2, if_true, Option.map_eq_some_iff] at hf
    rcases hf with ⟨ret, -, hret⟩
    exact ⟨ret, hret.symm⟩
  rcases htext with ⟨ret, rfl⟩
  rw [Option.bind_eq_some_iff] at h
  rcases h with ⟨⟨more, ret', cmt⟩, -, h⟩
  have hbegin := (Flags.goOn hE (findLines_flags hE true (index + 1) info
    fun _ _ _ _ _ => trivial) _ t s' h).isPrefix.length_le
  intro heq
  rw [heq] at hbegin
  simp only [Search.flag, Search.comment, if_true, List.length_append, List.length_singleton]
    at hbegin
  omega

theorem flags_elsewhere (pos : RelativePosition) (info : List PreprocessingInfo)
    (successors : List Node) :
    Flags (fun _ => True) (elsewhere isFixed pos path info successors) :=
  (elsewhere_flags pos successors 0).mono fun _ _ => trivial

/-- The first line of a successor is not taken. -/
def Untaken (path : List Nat) (ii : Nat) (ns : List Node) (flagged : List Place) : Prop :=
  ∀ k info successors ppi, ns[k]? = some (.located info successors) →
    info.head? = some ppi → ¬ takes true flagged ((ii + k) :: path, 0) ppi

theorem untaken_cons_iff {ii : Nat} {n : Node} {ns : List Node} {flagged : List Place} :
    Untaken path ii (n :: ns) flagged ↔
      (∀ info successors ppi, n = .located info successors → info.head? = some ppi →
        ¬ takes true flagged (ii :: path, 0) ppi) ∧ Untaken path (ii + 1) ns flagged := by
  constructor
  · intro h
    refine ⟨fun info successors ppi hn => h 0 info successors ppi (congrArg some hn), ?_⟩
    intro k info successors ppi hk
    rw [Nat.add_assoc, Nat.add_comm 1]
    exact h (k + 1) info successors ppi hk
  · intro h k info successors ppi hk
    rcases k with _ | k
    · exact h.1 info successors ppi (Option.some.inj hk)
    · rw [Nat.add_comm k, ← Nat.add_assoc]
      exact h.2 k info successors ppi hk

theorem findBefore_of_not_takes {n : Node} {s : Search}
    (h : ∀ info successors ppi, n = .located info successors → info.head? = some ppi →
      ¬ takes true s.transformation (path, 0) ppi) :
    findBefore true path n s = some ([], s) := by
  cases n with
  | other => rw [findBefore]
  | located info successors =>
      rw [findBefore]
      exact findLines_of_not_takes fun ppi hppi => h info successors ppi rfl hppi

/-- A search from a node on that flags nothing does not take its first line. -/
theorem not_takes_of_findBefore {n : Node} {s s' : Search} {t : Text}
    (h : findBefore true path n s = some (t, s')) (heq : s'.transformation = s.transformation)
    (info : List PreprocessingInfo) (successors : List Node) (ppi : PreprocessingInfo)
    (hn : n = .located info successors) (hppi : info.head? = some ppi) :
    ¬ takes true s.transformation (path, 0) ppi := by
  intro htakes
  rw [hn, findBefore] at h
  rcases info with _ | ⟨c, info⟩
  · exact nomatch hppi
  · rw [List.head?_cons, Option.some.injEq] at hppi
    rw [← hppi] at htakes
    exact findLines_of_takes ((findSuccessors_flags true path 0 successors).mono fun _ _ => trivial)
      htakes h heq

theorem findSuccessors_of_untaken {ii : Nat} {ns : List Node} {s : Search}
    (h : Untaken path ii ns s.transformation) :
    findSuccessors true path ii ns s = some ([], s) := by
  induction ns generalizing ii with
  | nil => rw [findSuccessors]
  | cons n ns ih =>
      rw [untaken_cons_iff] at h
      rw [findSuccessors, findBefore_of_not_takes h.1, Option.bind_some]
      exact ih h.2

/-- A search in successors that flags nothing takes none of their first lines. -/
theorem untaken_of_findSuccessors {ii : Nat} {ns : List Node} {s s' : Search} {t : Text}
    (h : findSuccessors true path ii ns s = some (t, s'))
    (heq : s'.transformation = s.transformation) : Untaken path ii ns s.transformation := by
  induction ns generalizing ii with
  | nil =>
      intro k info successors ppi hk
      exact nomatch hk
  | cons n ns ih =>
      rw [findSuccessors, Option.bind_eq_some_iff] at h
      rcases h with ⟨⟨cont2, s₁⟩, h₁, h⟩
      dsimp only at h
      -- Neither this successor nor the others have flagged a line.
      have hgrow := findBefore_flags true (ii :: path) n s cont2 s₁ h₁
      have hrest : s₁.transformation <+: s'.transformation := by
        split at h
        · rw [Option.some.injEq, Prod.mk.injEq] at h
          exact h.2 ▸ List.prefix_rfl
        · exact (findSuccessors_flags true path (ii + 1) ns s₁ t s' h).isPrefix
      have hsame : s₁.transformation = s.transformation := by
        rw [heq] at hrest
        exact hrest.eq_of_length_le hgrow.isPrefix.length_le
      have hfirst := not_takes_of_findBefore h₁ hsame
      rw [findBefore_of_not_takes hfirst, Option.some.injEq, Prod.mk.injEq] at h₁
      rw [← h₁.1, ← h₁.2, if_neg (not_not_intro rfl)] at h
      exact untaken_cons_iff.mpr ⟨hfirst, ih h⟩

variable {pos : RelativePosition} {info : List PreprocessingInfo} {successors : List Node}

theorem nothingElsewhere_before_iff {flagged : List Place} :
    NothingElsewhere true .before path info successors flagged ↔
      Untaken path 0 successors flagged := by
  unfold NothingElsewhere Untaken
  simp only [Nat.zero_add]

theorem elsewhere_of_nothing (h : NothingElsewhere true pos path info successors s.transformation) :
    elsewhere true pos path info successors s = some ([], s) := by
  cases pos with
  | before => exact findSuccessors_of_untaken (nothingElsewhere_before_iff.mp h)
  | inside => rfl
  | after =>
      refine findBefore_of_not_takes fun info' successors' ppi hn hppi => ?_
      rw [Node.located.injEq] at hn
      exact h ppi (hn.1 ▸ hppi)

theorem nothing_of_elsewhere {s' : Search} {t : Text}
    (h : elsewhere true pos path info successors s = some (t, s'))
    (heq : s'.transformation = s.transformation) :
    NothingElsewhere true pos path info successors s.transformation := by
  cases pos with
  | before => exact nothingElsewhere_before_iff.mpr (untaken_of_findSuccessors h heq)
  | inside => trivial
  | after => exact fun ppi hppi => not_takes_of_findBefore h heq info successors ppi rfl hppi

/-- Flags behind the first line of the node make no difference elsewhere. -/
theorem nothingElsewhere_append_iff {flagged more : List Place}
    (h : ∀ p ∈ more, p.1 = path ∧ 0 < p.2) :
    NothingElsewhere true pos path info successors (flagged ++ more) ↔
      NothingElsewhere true pos path info successors flagged := by
  have htakes : ∀ p ppi, p ∉ more →
    (takes true (flagged ++ more) p ppi ↔ takes true flagged p ppi) := by
    intro p ppi hp
    simp only [takes, List.mem_append, hp, or_false]
  cases pos with
  | inside => exact Iff.rfl
  | after =>
      have hzero : (path, 0) ∉ more := fun hmem => Nat.lt_irrefl 0 (h _ hmem).2
      simp only [NothingElsewhere, htakes _ _ hzero]
  | before =>
      have hbelow : ∀ ii, (ii :: path, 0) ∉ more := fun ii hmem =>
        List.cons_ne_self ii path (h _ hmem).1
      simp only [NothingElsewhere, htakes _ _ (hbelow _)]

/-- What is known of a segment that continues a directive. -/
theorem Continues.segment {r : Reading} {segments : List Segment}
    (h : Continues isFixed r segments) {g : Segment} (hg : g ∈ segments) :
    ∀ c ∈ g.comments, isDirective isFixed c = false := by
  induction segments generalizing r with
  | nil => exact absurd hg List.not_mem_nil
  | cons x segments ih =>
      rcases h with ⟨-, hcomments, -, hcont⟩
      rcases List.mem_cons.mp hg with rfl | hg
      · exact hcomments
      · exact ih hcont hg

theorem mem_places_append (path : List Nat) (index : Nat) (done : List Segment) (g : Segment)
    (segments : List Segment) :
    (path, index + (done.flatMap Segment.info).length + g.comments.length) ∈
      places path index (done ++ g :: segments) := by
  induction done generalizing index with
  | nil => exact List.mem_cons_self
  | cons x done ih =>
      have hlen : index + ((x :: done).flatMap Segment.info).length =
          index + x.comments.length + 1 + (done.flatMap Segment.info).length := by
        rw [List.flatMap_cons, List.length_append, Segment.info, List.length_append,
          List.length_singleton]
        omega
      rw [hlen]
      exact List.mem_cons_of_mem _ (ih _)

/-- The lines of a segment among those of a statement. -/
theorem Directive.getElem?_info (d : Directive isFixed path s) {done segments : List Segment}
    {g : Segment} (hd : d.segments = done ++ g :: segments) (k : Nat) :
    d.info[d.front.length + 1 + (done.flatMap Segment.info).length + k]? =
      (g.comments ++ g.line :: (segments.flatMap Segment.info ++ d.rest))[k]? := by
  have hinfo : d.info = (d.front ++ d.first :: done.flatMap Segment.info) ++
      (g.comments ++ g.line :: (segments.flatMap Segment.info ++ d.rest)) := by
    simp only [Directive.info, hd, List.flatMap_append, List.flatMap_cons, Segment.info,
      List.append_assoc, List.cons_append, List.nil_append]
  have hlen : d.front.length + 1 + (done.flatMap Segment.info).length =
      (d.front ++ d.first :: done.flatMap Segment.info).length := by
    rw [List.length_append, List.length_cons]
    omega
  rw [hinfo, hlen, List.getElem?_append_right (Nat.le_add_right _ _), Nat.add_sub_cancel_left]

/-- If all lines are flagged, they follow each other and are marked. -/
theorem Directive.segment_of_flagged (d : Directive isFixed path s) {t : Text} {s' : Search}
    (h : findContinuedDirective isFixed pos path d.info successors false d.front.length s =
      some (t, s')) (hall : ∀ p ∈ d.places, p ∈ s'.transformation) {g : Segment}
    (hg : g ∈ d.segments) : g.comments = [] ∧ isMarked isFixed g.line.string = true := by
  rcases List.append_of_mem hg with ⟨done, segments, hd⟩
  have hplace := mem_places_append path (d.front.length + 1) done g segments
  rw [← hd] at hplace
  have hreached := (findContinuedDirective_flags pos successors false d.front.length s t s'
    h).of_mem
    (hall _ hplace) (d.unflagged _ (List.mem_cons_of_mem _ hplace)) rfl
  rcases hreached with ⟨ppi, hppi, hmark, hbetween⟩
  constructor
  · -- A comment would be passed on the way.
    by_contra hne
    rcases List.exists_cons_of_ne_nil hne with ⟨c, cs, hcs⟩
    have hc := d.getElem?_info hd 0
    rw [hcs, List.cons_append, List.getElem?_cons_zero, Nat.add_zero] at hc
    have hdir := hbetween _ c (by omega) (by rw [hcs, List.length_cons]; omega) hc
    rw [d.continues.segment hg c (hcs ▸ List.mem_cons_self)] at hdir
    exact Bool.noConfusion hdir
  · have hline := d.getElem?_info hd g.comments.length
    rw [List.getElem?_append_right (Nat.le_refl _), Nat.sub_self, List.getElem?_cons_zero,
      hppi, Option.some.injEq] at hline
    exact hline ▸ hmark

/-- The search takes the first line of a directive. -/
theorem Directive.find_eq (d : Directive isFixed path s) (pos : RelativePosition)
    (successors : List Node) :
    findContinuedDirective isFixed pos path d.info successors false d.front.length s =
      goOn isFixed (elsewhere isFixed pos path d.info successors)
        (findLines isFixed path (elsewhere isFixed pos path d.info successors) true
          (d.front.length + 1) (d.segments.flatMap Segment.info ++ d.rest))
        (isFixed || (readFirst isFixed d.first).continued) (readFirst isFixed d.first).text
        (s.comment false (readFirst isFixed d.first).comment) := by
  have hdir := d.directive
  rw [isDirective, Option.isSome_iff_exists] at hdir
  rcases hdir with ⟨p, hp⟩
  have hdrop : d.info.drop d.front.length =
      d.first :: (d.segments.flatMap Segment.info ++ d.rest) := List.drop_left
  have hfront : Preproc.front isFixed false d.first.string =
    some (.text (d.first.string.drop p)) := by
    rw [Preproc.front, hp]
    rfl
  rw [findContinuedDirective, hdrop, findLines, if_neg (d.unflagged _ List.mem_cons_self), hfront,
    Option.bind_some]
  simp only [cut_first hp, Option.bind_some]
  rfl

theorem Directive.more_of_segments (d : Directive isFixed path s) (h : d.segments ≠ []) :
    (isFixed || (readFirst isFixed d.first).continued) = true := by
  rcases List.exists_cons_of_ne_nil h with ⟨g, segments, hd⟩
  have hcont := d.continues
  rw [hd] at hcont
  cases isFixed with
  | true => rfl
  | false => exact hcont.1 rfl

/-- The places of a directive are behind the first line of the statement. -/
theorem Directive.pos_of_mem_places (d : Directive isFixed path s) (p : Place)
    (hp : p ∈ d.places) : p.1 = path ∧ 0 < p.2 := by
  rcases le_of_mem_places hp with ⟨hpath, hle⟩
  exact ⟨hpath, by omega⟩

theorem Directive.text_eq (d : Directive isFixed path s) :
    d.text = (readFirst isFixed d.first).text ++ texts isFixed d.segments := rfl

/-- The directive is found completely if its lines can be joined. -/
theorem Joinable.found {d : Directive isFixed path s} (h : Joinable d pos successors) :
    findContinuedDirective isFixed pos path d.info successors false d.front.length s =
      some (d.text, d.found) := by
  rw [d.find_eq]
  exact goOn_chain d.continues h.adjacent h.marked h.legible
    (fun p hp => d.unflagged p (List.mem_cons_of_mem _ hp)) d.ends fun hfix s' hs' => by
      subst hfix
      refine elsewhere_of_nothing ?_
      rw [hs']
      exact (nothingElsewhere_append_iff d.pos_of_mem_places).mpr (h.settled rfl)

/-- The lines can be joined if the directive is found completely. -/
theorem joinable_of_found {d : Directive isFixed path s}
    (h : findContinuedDirective isFixed pos path d.info successors false d.front.length s =
      some (d.text, d.found)) : Joinable d pos successors := by
  have hseg := fun g (hg : g ∈ d.segments) => d.segment_of_flagged h
    (fun p hp => List.mem_append_right _ hp) hg
  have hE : Flags (fun _ => True) (elsewhere isFixed pos path d.info successors) :=
    flags_elsewhere pos d.info successors
  have hflag : ∀ p ∈ d.places, p ∉ s.transformation := fun p hp =>
    d.unflagged p (List.mem_cons_of_mem _ hp)
  rw [d.find_eq, d.text_eq] at h
  have hadj := fun g hg => (hseg g hg).1
  have hmark := fun g hg => (hseg g hg).2
  rcases goOn_cases h with ⟨hfalse, -, -⟩ | ⟨-, contdir, s₁, hnext, hend⟩
  · -- The first line is not continued.
    have hnil : d.segments = [] := by
      by_contra hne
      rw [d.more_of_segments hne] at hfalse
      exact Bool.noConfusion hfalse
    refine ⟨hadj, hmark, fun g hg => absurd (hnil ▸ hg) List.not_mem_nil, fun hfix => ?_⟩
    exact Bool.noConfusion (hfix.symm.trans (Bool.or_eq_false_iff.mp hfalse).1)
  · rcases findLines_of_chain (s := s.comment false (readFirst isFixed d.first).comment)
      d.continues hadj hmark hflag hE hnext with ⟨-, hleg, hbegin⟩
    refine ⟨hadj, hmark, hleg ?_, fun hfix => ?_⟩
    · -- Nothing longer than the texts has been found.
      rcases hend with ⟨-, heq, -⟩ | ⟨found, -, heq⟩
      · exact (List.append_cancel_left heq).symm ▸ Nat.le_refl _
      · rw [List.append_assoc] at heq
        rw [List.append_cancel_left heq, List.length_append]
        omega
    · subst hfix
      rcases hend with ⟨hfree, -, -⟩ | ⟨found, hfound, -⟩
      · exact Bool.noConfusion hfree
      · -- All flags have been set before the search elsewhere.
        have hflags : d.found.transformation = s₁.transformation :=
          (hbegin.eq_of_length_le (hE s₁ found _ hfound).isPrefix.length_le)
        have hnothing := nothing_of_elsewhere hfound hflags
        rw [← hflags] at hnothing
        exact (nothingElsewhere_append_iff d.pos_of_mem_places).mp hnothing

/-- A directive is found completely and once exactly if its lines can be joined. -/
theorem joined_iff (d : Directive isFixed path s) (pos : RelativePosition)
    (successors : List Node) : Joined d pos successors ↔ Joinable d pos successors := by
  constructor
  · intro h
    exact joinable_of_found h.found
  · intro h
    refine ⟨h.found, fun p hp pos' => writePragmaAt_of_flagged pos' successors ?_⟩
    have hplace : (path, p.2) = p := Prod.ext (d.pos_of_mem_places p hp).1.symm rfl
    rw [hplace]
    exact List.mem_append_right _ hp

end Joining

section Examples

/-- A line in front of a statement. -/
def lineBefore (t : String) : PreprocessingInfo := ⟨t.toList, .before⟩

/-- Nothing has been found yet. -/
def nothingFound : Search := ⟨[], [], []⟩

/-- A directive in free form on three lines with comments. -/
def tiledLoop : Directive false [] nothingFound where
  front := [lineBefore "! outer loop"]
  first := lineBefore "!$xev loop tile & ! on the first line"
  segments := [⟨[], lineBefore "!$xev& size(4) & ! on the second"⟩,
    ⟨[], lineBefore "!$xev& target(i)"⟩]
  rest := [lineBefore "! inner loop"]
  directive := by decide
  continues := by
    refine ⟨fun _ => ?_, List.forall_mem_nil _, ?_, fun _ => ?_, List.forall_mem_nil _, ?_, ?_⟩
    · decide
    · decide
    · decide
    · decide
    · exact (by decide : (readNext false (lineBefore "!$xev& target(i)")).continued = false)
  ends := fun h => Bool.noConfusion h
  unflagged := fun _ _ => List.not_mem_nil

example : tiledLoop.text = "!$xev loop tile  size(4)  target(i)".toList := by decide

theorem tiledLoop_joined : Joined tiledLoop .before [] :=
  (joined_iff tiledLoop .before []).mpr
    { adjacent := by decide
      marked := by decide
      legible := by
        intro g hg
        rcases List.mem_pair.mp hg with rfl | rfl
        · exact ⟨by decide, fun _ => ⟨'s', by decide, by decide⟩⟩
        · exact ⟨by decide, fun _ => ⟨'t', by decide, by decide⟩⟩
      settled := fun h => Bool.noConfusion h }

/-- A directive in free form with a comment between its lines. -/
def commentedLoop : Directive false [] nothingFound where
  front := []
  first := lineBefore "!$xev loop &"
  segments := [⟨[lineBefore "! the size"], lineBefore "!$xev& size(4)"⟩]
  rest := []
  directive := by decide
  continues := by
    refine ⟨fun _ => ?_, ?_, ?_, ?_⟩
    · decide
    · decide
    · decide
    · exact (by decide : (readNext false (lineBefore "!$xev& size(4)")).continued = false)
  ends := fun h => Bool.noConfusion h
  unflagged := fun _ _ => List.not_mem_nil

theorem commentedLoop_not_joined : ¬ Joined commentedLoop .before [] := by
  intro h
  have hadj := (joinable_of_found h.found).adjacent _ List.mem_cons_self
  exact absurd hadj (List.cons_ne_nil _ _)

end Examples

end XevXml.Preproc
