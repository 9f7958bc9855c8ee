import XevXml.Tools.Tgen.Directive

/-!
# Both Walks Number the Contexts

The contexts have no numbers in the program. Each walk counts the directives that define one,
and they have to count alike, since the first walk decides which flag a name stands for and
the second one which flag a directive sets.

A directive takes part in this in one of four ways. Most of those with a context count in both
walks, and those without one in neither. A transformation that is only a source has no context
in the first walk. In the second one it takes the next number, and gives it back when the
number has been checked to be smaller than the number of contexts, which it is not behind the
last context. A `trans stmt` with its source and its destination in one block has a context in
the first walk, for the destination, but the second walk gives the number back all the same,
so that it is used again.

## Main definitions

* `Role`: How a directive takes part.
* `idsCounted`, `idsWritten`: The numbers that directives get in both walks.
* `Program`: A program that both walks accept.

## Theorems

* `walk_eq_foldlM`: A walk works on one directive after the other.
* `idsWritten_iff`: When the second walk gives the numbers of the first one.
* `numbered_iff`: When the contexts of a program are numbered alike.
-/

namespace XevXml.Tools.Tgen

section Walks

/-- The clauses of a directive and its kind, as far as they are there. -/
def directiveOf (x : Cell) : Run (List Cell × Option Keyword) := do
  let cl ← xml_get_cell [x] "cc"
  let k ← xml_getstr cl "nna=name"
  .ok (cl, keyword k)

/-- Whether the children of a directive are not looked at. -/
def stops (x : Cell) : Bool :=
  match directiveOf x with
  | .ok (_, some .var) | .ok (_, some .list) | .ok (_, some .stmt) => false
  | _ => true

mutual

/-- The directives that a walk comes to, in order. -/
def Cell.visited : Cell → List Cell
  | .mk type name attrs pretext posttext cs =>
      let x := Cell.mk type name attrs pretext posttext cs
      if directive_tgen x then x :: (if stops x then [] else visited cs) else visited cs

def visited : List Cell → List Cell
  | [] => []
  | x :: xs => Cell.visited x ++ visited xs

end

/-- A walk works on one directive after the other. -/
theorem walk_eq_foldlM {σ : Type} {step : σ → Cell → Run (σ × Bool)}
    (hstops : ∀ s x r, step s x = .ok r → r.2 = stops x) (s : σ) (xs : List Cell) :
    walk step s xs = (visited xs).foldlM (fun s x => (step s x).map Prod.fst) s := by
  have hall := Cell.induct
    (P := fun x => ∀ s, Cell.walk step s x = (Cell.visited x).foldlM
      (fun s x => (step s x).map Prod.fst) s)
    (Q := fun xs => ∀ s, walk step s xs = (visited xs).foldlM
      (fun s x => (step s x).map Prod.fst) s)
    (fun type name attrs pretext posttext cs ih s => by
      rw [Cell.walk, Cell.visited]
      by_cases hdirective : directive_tgen (.mk type name attrs pretext posttext cs) = true
      · rw [if_pos hdirective, if_pos hdirective, List.foldlM_cons]
        cases hstep : step s (.mk type name attrs pretext posttext cs) with
        | error e => rfl
        | ok r =>
            have hflag := hstops _ _ _ hstep
            by_cases hstop : stops (.mk type name attrs pretext posttext cs) = true
            · rw [if_pos hstop]
              rw [hstop] at hflag
              simp only [bind, Except.bind, Except.map, if_pos hflag, List.foldlM_nil]
              rfl
            · rw [if_neg hstop]
              have hno : ¬ r.2 = true := by
                rw [hflag]
                exact hstop
              simp only [bind, Except.bind, Except.map, if_neg hno]
              exact ih r.1
      · rw [if_neg hdirective, if_neg hdirective]
        exact ih s)
    (fun s => rfl)
    (fun x xs hx hxs s => by
      rw [walk, visited, List.foldlM_append, hx]
      exact congrArg _ (funext hxs))
  exact hall.2 xs s

end Walks

section Roles

/-- How a directive takes part in the counting. -/
inductive Role
  | none
  | counts
  | lends
  | repeats
deriving DecidableEq

/-- Whether a directive has a context in the first walk. -/
def Role.has : Role → Bool
  | .counts | .repeats => true
  | .none | .lends => false

/-- Whether a number is taken in the second walk. -/
def Role.takes : Role → Bool
  | .none => false
  | .counts | .lends | .repeats => true

/-- The numbers in the first walk. -/
def idsCounted (n : Nat) : List Role → List (Option Nat)
  | [] => []
  | r :: rs => (if r.has then some n else Option.none) :: idsCounted (if r.has then n + 1 else n) rs

/-- The numbers in the second walk, which have to be smaller than the number of contexts. -/
def idsWritten (total n : Nat) : List Role → Option (List (Option Nat))
  | [] => some []
  | r :: rs =>
      if r.takes ∧ total ≤ n then Option.none
      else
        (idsWritten total (if r = .counts then n + 1 else n) rs).map
          ((if r.has then some n else Option.none) :: ·)

/-- Where the two walks agree: no context is counted behind a number that is used again, and a
    number that is only lent is smaller than the number of contexts. -/
structure Agreeing (rs : List Role) : Prop where
  once : ∀ before after, rs = before ++ .repeats :: after → ∀ r ∈ after, r.has = false
  lent : ∀ before after, rs = before ++ .lends :: after →
    (∃ r ∈ before, r = .repeats) ∨ ∃ r ∈ after, r.has = true

theorem agreeing_repeats_iff (rs : List Role) :
    Agreeing (.repeats :: rs) ↔ ∀ r ∈ rs, r.has = false := by
  constructor
  · intro h
    exact h.once [] rs rfl
  · intro h
    constructor
    · intro before after heq r hr
      cases before with
      | nil =>
          rw [List.nil_append, List.cons.injEq] at heq
          rw [heq.2] at h
          exact h r hr
      | cons b before =>
          rw [List.cons_append, List.cons.injEq] at heq
          refine h r ?_
          rw [heq.2]
          exact List.mem_append_right _ (List.mem_cons_of_mem _ hr)
    · intro before after heq
      cases before with
      | nil => cases heq
      | cons b before =>
          rw [List.cons_append, List.cons.injEq] at heq
          exact Or.inl ⟨b, List.mem_cons_self, heq.1.symm⟩

theorem agreeing_cons_iff {r : Role} (hr : r ≠ .repeats) (rs : List Role) :
    Agreeing (r :: rs) ↔ (r = .lends → ∃ k ∈ rs, k.has = true) ∧ Agreeing rs := by
  constructor
  · intro h
    refine ⟨fun hl => ?_, ?_, ?_⟩
    · rcases h.lent [] rs (by rw [hl]; rfl) with ⟨k, hk, _⟩ | hafter
      · exact absurd hk List.not_mem_nil
      · exact hafter
    · intro before after heq
      exact h.once (r :: before) after (by rw [heq]; rfl)
    · intro before after heq
      rcases h.lent (r :: before) after (by rw [heq]; rfl) with ⟨k, hk, hrep⟩ | hafter
      · rcases List.mem_cons.mp hk with rfl | hk
        · exact absurd hrep hr
        · exact Or.inl ⟨k, hk, hrep⟩
      · exact Or.inr hafter
  · intro h
    rcases h with ⟨hl, hrs⟩
    constructor
    · intro before after heq
      -- The directive in question is the first one, or one behind it.
      cases before with
      | nil =>
          rw [List.nil_append, List.cons.injEq] at heq
          exact absurd heq.1 hr
      | cons b before =>
          rw [List.cons_append, List.cons.injEq] at heq
          exact hrs.once before after heq.2
    · intro before after heq
      cases before with
      | nil =>
          rw [List.nil_append, List.cons.injEq] at heq
          rw [← heq.2]
          exact Or.inr (hl heq.1)
      | cons b before =>
          rw [List.cons_append, List.cons.injEq] at heq
          rcases hrs.lent before after heq.2 with ⟨k, hk, hrep⟩ | hafter
          · exact Or.inl ⟨k, List.mem_cons_of_mem _ hk, hrep⟩
          · exact Or.inr hafter

/-- How many directives have a context. -/
def contexts (rs : List Role) : Nat := rs.countP Role.has

theorem contexts_cons {r : Role} (h : r.has = true) (rs : List Role) :
    contexts (r :: rs) = contexts rs + 1 := List.countP_cons_of_pos h

theorem contexts_cons_of_not {r : Role} (h : ¬ r.has = true) (rs : List Role) :
    contexts (r :: rs) = contexts rs := List.countP_cons_of_neg h

theorem map_cons_eq_some_iff {α : Type} (x : α) (l : List α) (o : Option (List α)) :
    o.map (x :: ·) = some (x :: l) ↔ o = some l := by
  rw [Option.map_eq_some_iff]
  constructor
  · intro h
    rcases h with ⟨ids, hids, heq⟩
    rw [List.cons.injEq] at heq
    rw [hids, heq.2]
  · intro h
    exact ⟨l, h, rfl⟩

/-- Behind a number that is used again, the second walk is behind the first one for good. -/
theorem idsWritten_behind (total n m : Nat) (rs : List Role) (hm : m < n)
    (htotal : total = n + contexts rs) :
    idsWritten total m rs = some (idsCounted n rs) ↔ ∀ r ∈ rs, r.has = false := by
  induction rs with
  | nil => exact iff_of_true rfl fun r hr => absurd hr List.not_mem_nil
  | cons r rs ih =>
      have hfits : ¬ (r.takes ∧ total ≤ m) := by omega
      rw [idsWritten, idsCounted, if_neg hfits, List.forall_mem_cons]
      by_cases hhas : r.has = true
      · -- the two walks give it different numbers
        have hno : ¬ (r.has = false ∧ ∀ k ∈ rs, k.has = false) := by
          rw [hhas]
          exact fun h => Bool.noConfusion h.1
        rw [if_pos hhas, if_pos hhas]
        refine iff_of_false (fun h => ?_) hno
        rcases Option.map_eq_some_iff.mp h with ⟨ids, _, heq⟩
        rw [List.cons.injEq, Option.some.injEq] at heq
        omega
      · have hcount : r ≠ .counts := by
          intro h
          rw [h] at hhas
          exact hhas rfl
        rw [contexts_cons_of_not hhas] at htotal
        rw [if_neg hhas, if_neg hhas, if_neg hhas, if_neg hcount, ← ih htotal, map_cons_eq_some_iff]
        rw [Bool.not_eq_true] at hhas
        exact (and_iff_right hhas).symm

/-- When the second walk gives the numbers of the first one. -/
theorem idsWritten_iff (total n : Nat) (rs : List Role) (htotal : total = n + contexts rs) :
    idsWritten total n rs = some (idsCounted n rs) ↔ Agreeing rs := by
  induction rs generalizing n with
  | nil =>
      refine iff_of_true rfl ⟨fun before after heq => ?_, fun before after heq => ?_⟩
      · cases before <;> cases heq
      · cases before <;> cases heq
  | cons r rs ih =>
      rw [idsWritten, idsCounted]
      cases r with
      | none =>
          rw [if_neg (fun h => Bool.noConfusion h.1), agreeing_cons_iff (by decide)]
          refine (map_cons_eq_some_iff _ _ _).trans ((ih n htotal).trans ?_)
          exact (and_iff_right fun h => by cases h).symm
      | counts =>
          rw [contexts_cons rfl] at htotal
          rw [if_neg (fun h => by omega), agreeing_cons_iff (by decide)]
          refine (map_cons_eq_some_iff _ _ _).trans ((ih (n + 1) (by omega)).trans ?_)
          exact (and_iff_right fun h => by cases h).symm
      | lends =>
          rw [contexts_cons_of_not (by decide)] at htotal
          rw [agreeing_cons_iff (by decide)]
          have hpos : (∃ k ∈ rs, k.has = true) ↔ n < total := by
            rw [htotal, ← List.countP_pos_iff]
            exact (Nat.lt_add_right_iff_pos).symm
          by_cases hlast : total ≤ n
          · -- there is no context behind the number that is lent
            rw [if_pos ⟨rfl, hlast⟩]
            refine iff_of_false (fun h => by cases h) fun h => ?_
            have hlt := hpos.mp (h.1 rfl)
            omega
          · rw [if_neg fun h => hlast h.2]
            refine (map_cons_eq_some_iff _ _ _).trans ((ih n htotal).trans ?_)
            exact (and_iff_right fun _ => hpos.mpr (by omega)).symm
      | repeats =>
          rw [contexts_cons rfl] at htotal
          rw [if_neg (fun h => by omega), agreeing_repeats_iff]
          exact (map_cons_eq_some_iff _ _ _).trans
            (idsWritten_behind total (n + 1) n rs (by omega) (by omega))

end Roles

section Directives

/-- Whether something stands behind the second list of clauses. -/
def behind (x : Cell) : Bool :=
  match behindSecond x with
  | .ok more => more
  | .error _ => false

/-- How a transformation takes part. -/
def transRole (x : Cell) (cl : List Cell) : Role :=
  match (xml_getstr cl "nnna=name").map subject with
  | .ok (some .clause) => if (get_dst cl).length < (get_src cl).length then .lends else .counts
  | .ok (some .stmt) =>
      if (get_src cl).isEmpty then .counts else if behind x then .repeats else .lends
  | .ok _ => .counts
  | .error _ => .none

/-- How a directive takes part. -/
def role (x : Cell) : Role :=
  match directiveOf x with
  | .ok (_, some .ctxdef) | .ok (_, some .dst) => .counts
  | .ok (cl, some .trans) => transRole x cl
  | .ok (_, some .src) => if behind x then .counts else .none
  | _ => .none

/-- The state behind a directive in the first walk. -/
def Count.next (s : Count) (r : Role) (name : Option Text) : Count :=
  if r.has then s.new_context name else s.pass

/-- The state behind a directive in the second walk. -/
def Written.next (s : Written) (r : Role) : Written :=
  match r with
  | .none | .lends => s.pass
  | .counts => s.set
  | .repeats => s.setBack

theorem source_eq {s s' : Count} {x : Cell} (h : s.source x = .ok s') :
    behindSecond x = .ok (behind x) ∧
      ((behind x = true ∧ ∃ name, s' = s.new_context name) ∨ (behind x = false ∧ s' = s.pass)) := by
  rw [Count.source] at h
  rcases (bind_eq_ok_iff _ _ _).mp h with ⟨more, hmore, h1⟩
  have hbehind : behind x = more := by
    rw [behind, hmore]
  rw [hbehind]
  refine ⟨hmore, ?_⟩
  by_cases hm : more = true
  · rw [if_pos hm] at h1
    rcases (bind_eq_ok_iff _ _ _).mp h1 with ⟨p, _, h2⟩
    rcases (bind_eq_ok_iff _ _ _).mp h2 with ⟨name, _, h3⟩
    cases h3
    exact Or.inl ⟨hm, name, rfl⟩
  · rw [if_neg hm] at h1
    cases h1
    exact Or.inr ⟨Bool.eq_false_iff.mpr hm, rfl⟩

/-- What the first walk does at a transformation. -/
theorem count_trans_eq {s s' : Count} {x : Cell} {cl : List Cell}
    (h : count_trans s x cl = .ok s') :
    ∃ name, s' = s.next (transRole x cl) name := by
  rw [count_trans] at h
  rcases (bind_eq_ok_iff _ _ _).mp h with ⟨t, ht, h1⟩
  have hown : (get_context_name cl >>= fun name => .ok (s.new_context name)) = .ok s' →
      ∃ name, s' = s.next .counts name := by
    intro h
    rcases (bind_eq_ok_iff _ _ _).mp h with ⟨name, _, heq⟩
    cases heq
    exact ⟨name, rfl⟩
  rw [transRole, ht]
  dsimp only [Except.map] at h1 ⊢
  cases hsubject : subject t with
  | none =>
      rw [hsubject] at h1
      exact hown h1
  | some w =>
      rw [hsubject] at h1
      cases w with
      | exp | term => exact hown h1
      | clause =>
          dsimp only at h1 ⊢
          -- With fewer targets than sources the number is only lent.
          split at h1
          · next hlen =>
              cases h1
              rw [if_pos hlen]
              exact ⟨none, rfl⟩
          · next hlen =>
              rw [if_neg hlen]
              exact hown h1
      | stmt =>
          dsimp only at h1 ⊢
          split at h1
          · next hsrc =>
              rw [if_pos hsrc]
              exact hown h1
          · next hsrc =>
              rw [if_neg hsrc]
              rcases (source_eq h1).2 with ⟨hb, name, heq⟩ | ⟨hb, heq⟩
              · rw [hb, heq]
                exact ⟨name, rfl⟩
              · rw [hb, heq]
                exact ⟨none, rfl⟩

/-- What the first walk does at a directive. -/
theorem count_directive_eq {s : Count} {x : Cell} {r : Count × Bool}
    (h : count_directive s x = .ok r) : r.2 = stops x ∧ ∃ name, r.1 = s.next (role x) name := by
  rw [count_directive] at h
  rcases (bind_eq_ok_iff _ _ _).mp h with ⟨cl, hcl, h1⟩
  rcases (bind_eq_ok_iff _ _ _).mp h1 with ⟨k, hk, h2⟩
  have hof : directiveOf x = .ok (cl, keyword k) := by
    rw [directiveOf, hcl, ok_bind, hk, ok_bind]
  rw [stops, role, hof]
  cases hword : keyword k with
  | none =>
      rw [hword] at h2
      cases h2
  | some w =>
      rw [hword] at h2
      cases w with
      | var | list | condef | clean =>
          cases h2
          exact ⟨rfl, none, rfl⟩
      | ctxdef | dst =>
          rcases (bind_eq_ok_iff _ _ _).mp h2 with ⟨name, _, heq⟩
          cases heq
          exact ⟨rfl, name, rfl⟩
      | trans =>
          rcases (bind_eq_ok_iff _ _ _).mp h2 with ⟨s', hs', heq⟩
          cases heq
          exact ⟨rfl, count_trans_eq hs'⟩
      | src =>
          rcases (bind_eq_ok_iff _ _ _).mp h2 with ⟨s', hs', heq⟩
          cases heq
          -- A source counts only where something stands behind its clauses.
          rcases (source_eq hs').2 with ⟨hb, name, rfl⟩ | ⟨hb, rfl⟩
          · refine ⟨rfl, name, ?_⟩
            dsimp only
            rw [hb]
            rfl
          · refine ⟨rfl, none, ?_⟩
            dsimp only
            rw [hb]
            rfl
      | stmt =>
          rcases (bind_eq_ok_iff _ _ _).mp h2 with ⟨name, _, heq⟩
          cases heq
          exact ⟨rfl, none, rfl⟩
      | incl | mode =>
          dsimp only at h2
          split at h2
          · cases h2
            exact ⟨rfl, none, rfl⟩
          · cases h2

/-- Nothing stops with a message. -/
def NoExit {α : Type} (r : Run α) : Prop := ∀ m, r ≠ .error (.exit m)

theorem noExit_bind {α β : Type} {r : Run α} {f : α → Run β} (hr : OnlyExits r)
    (h : NoExit (r >>= f)) : ∃ a, r = .ok a ∧ NoExit (f a) := by
  cases r with
  | error e =>
      rcases hr e rfl with ⟨m, rfl⟩
      exact absurd rfl (h m)
  | ok a => exact ⟨a, rfl, h⟩

theorem noExit_of_bind {α β : Type} {r : Run α} {f : α → Run β} (h : NoExit (r >>= f)) :
    NoExit r := by
  intro m hm
  rw [hm] at h
  exact h m rfl

theorem onlyExits_moveCell (org : String) (op : Text) (p : List Cell) :
    OnlyExits (moveCell org op p) := by
  induction op generalizing p with
  | nil => exact onlyExits_ok p
  | cons c op ih =>
      cases p with
      | nil => exact onlyExits_exit _
      | cons x p =>
          rw [moveCell]
          split
          · exact ih p
          · split
            · exact ih _
            · exact onlyExits_exit _

theorem onlyExits_get_cell (p : List Cell) (op : String) : OnlyExits (xml_get_cell p op) := by
  rw [xml_get_cell]
  split
  · exact onlyExits_exit _
  · exact onlyExits_moveCell _ _ _

theorem onlyExits_moveStr (org : String) (op : Text) (p : List Cell) :
    OnlyExits (moveStr org op p) := by
  induction op generalizing p with
  | nil =>
      cases p with
      | nil => exact onlyExits_exit _
      | cons x p => exact onlyExits_ok _
  | cons c op ih =>
      cases p with
      | nil => exact onlyExits_exit _
      | cons x p =>
          rw [moveStr]
          split
          · exact ih p
          · split
            · exact ih _
            · split
              · exact onlyExits_ok _
              · exact onlyExits_exit _

theorem onlyExits_getstr (p : List Cell) (op : String) : OnlyExits (xml_getstr p op) := by
  rw [xml_getstr]
  split
  · exact onlyExits_exit _
  · exact onlyExits_moveStr _ _ _

section Setting

variable {num_contexts : Nat} {ctxlist : List CtxDef}

theorem onlyExits_foldlM {α : Type} {f : Text → α → Run Text} (hf : ∀ s a, OnlyExits (f s a))
    (s : Text)
    (l : List α) : OnlyExits (l.foldlM f s) := by
  induction l generalizing s with
  | nil => exact onlyExits_ok s
  | cons a l ih =>
      rw [List.foldlM_cons]
      intro e he
      cases hfa : f s a with
      | error e' =>
          rw [hfa] at he
          cases he
          exact hf s a _ hfa
      | ok s' =>
          rw [hfa] at he
          exact ih s' e he

/-- The numbers of contexts that are cancelled are in range, and only the own one is checked. -/
theorem set_context_string_cases (hids : ∀ ct ∈ ctxlist, ct.id < num_contexts) (ctx_id : Nat)
    (cl : List Cell) :
    (num_contexts ≤ ctx_id ∧ set_context_string num_contexts ctxlist ctx_id cl = .error
      .assertion) ∨
      (ctx_id < num_contexts ∧ OnlyExits (set_context_string num_contexts ctxlist ctx_id cl)) := by
  by_cases hid : ctx_id < num_contexts
  · refine Or.inr ⟨hid, ?_⟩
    rw [set_context_string, if_pos hid]
    refine onlyExits_foldlM (fun s x => ?_) _ _
    split
    · refine onlyExits_foldlM (fun s x => ?_) _ _
      split
      · exact onlyExits_exit _
      · next ct hct =>
          rw [if_pos (hids ct (List.mem_of_find?_eq_some hct))]
          exact onlyExits_ok _
    · exact onlyExits_ok _
  · left
    rw [set_context_string, if_neg hid]
    exact ⟨Nat.le_of_not_lt hid, rfl⟩

/-- What a directive with a number does when the number is checked. -/
theorem set_context_string_bind {β : Type} (hids : ∀ ct ∈ ctxlist, ct.id < num_contexts)
    (ctx_id : Nat)
    (cl : List Cell) {f : Text → Run β} {b : β}
    (hexit : NoExit (set_context_string num_contexts ctxlist ctx_id cl >>= f))
    (hf : ∀ t, NoExit (f t) → f t = .ok b) :
    (set_context_string num_contexts ctxlist ctx_id cl >>= f) =
      if num_contexts ≤ ctx_id then .error .assertion else .ok b := by
  rcases set_context_string_cases hids ctx_id cl with ⟨hle, h⟩ | ⟨hlt, h⟩
  · rw [if_pos hle, h, error_bind]
  · rcases noExit_bind h hexit with ⟨t, ht, hno⟩
    rw [if_neg (by omega), ht, ok_bind]
    exact hf t hno

/-- What the second walk does at a directive, by its role. -/
def Written.goes (num_contexts : Nat) (s : Written) (r : Role) : Run Written :=
  if r.takes ∧ num_contexts ≤ s.ctx_count then .error .assertion else .ok (s.next r)

theorem own_context_eq (hids : ∀ ct ∈ ctxlist, ct.id < num_contexts) {s : Written} {cl : List Cell}
    (hexit : NoExit (own_context num_contexts ctxlist s cl)) :
    own_context num_contexts ctxlist s cl = s.goes num_contexts .counts := by
  rw [own_context] at hexit ⊢
  rw [set_context_string_bind hids _ _ hexit (b := s.set) fun t _ => rfl, Written.goes]
  by_cases hle : num_contexts ≤ s.ctx_count
  · rw [if_pos hle, if_pos ⟨rfl, hle⟩]
  · rw [if_neg hle, if_neg fun h => hle h.2]
    rfl

theorem onlyExits_codeIn (p : List Cell) : OnlyExits (codeIn p) := by
  rw [codeIn]
  split
  · exact onlyExits_ok _
  · intro e he
    cases hget : xml_getstr p "c" with
    | error e' =>
        rw [hget] at he
        cases he
        exact onlyExits_getstr _ _ _ hget
    | ok name =>
        rw [hget] at he
        cases he

theorem onlyExits_codeInBoth (src dst : List Cell) : OnlyExits (codeInBoth src dst) := by
  rw [codeInBoth]
  intro e he
  cases hsrc : codeIn src with
  | error e' =>
      rw [hsrc] at he
      cases he
      exact onlyExits_codeIn _ _ hsrc
  | ok a =>
      rw [hsrc, ok_bind] at he
      split at he
      · exact onlyExits_codeIn _ _ he
      · cases he

/-- Every transformation takes a number. -/
theorem takes_transRole {x : Cell} {cl : List Cell} {t : Option Text}
    (ht : xml_getstr cl "nnna=name" = .ok t) : (transRole x cl).takes = true := by
  rw [transRole, ht]
  dsimp only [Except.map]
  cases subject t with
  | none => rfl
  | some w =>
      cases w with
      | exp | term => rfl
      | clause =>
          dsimp only
          split
          · rfl
          · rfl
      | stmt =>
          dsimp only
          split
          · rfl
          · split
            · rfl
            · rfl

/-- What the second walk does with the number of a transformation that the first one has
    accepted. -/
theorem trans_about_eq {s : Written} {s0 s1 : Count} {x : Cell} {cl : List Cell} {t : Option Text}
    (ht : xml_getstr cl "nnna=name" = .ok t) (hcount : count_trans s0 x cl = .ok s1)
    (hexit : NoExit (trans_about s x cl t)) :
    trans_about s x cl t = .ok (s.next (transRole x cl)) := by
  rw [count_trans, ht, ok_bind] at hcount
  rw [trans_about] at hexit ⊢
  rw [transRole, ht]
  dsimp only [Except.map] at hcount hexit ⊢
  cases hsubject : subject t with
  | none =>
      rw [hsubject] at hexit
      exact absurd rfl (hexit _)
  | some w =>
      rw [hsubject] at hcount hexit
      -- Each subject checks what it needs and then counts as the first pass counted it.
      cases w with
      | exp =>
          dsimp only at hexit ⊢
          by_cases htarget : xml_chk_struct [x] "cn=xev_target" = true
          · rw [if_pos htarget] at hexit ⊢
            by_cases hboth : (get_src cl).isEmpty = (get_dst cl).isEmpty
            · rw [if_pos hboth] at hexit
              exact absurd rfl (hexit _)
            · rw [if_neg hboth] at hexit ⊢
              rcases noExit_bind (onlyExits_get_cell _ _) hexit with ⟨p, hp, _⟩
              rw [hp]
              rfl
          · rw [if_neg htarget] at hexit ⊢
            rcases noExit_bind (onlyExits_codeInBoth _ _) hexit with ⟨code, hcode, hno⟩
            rw [hcode, ok_bind]
            by_cases hc : code = true
            · rw [if_pos hc]
              rfl
            · rw [if_neg hc] at hno
              exact absurd rfl (hno _)
      | term =>
          dsimp only at hexit ⊢
          by_cases hboth : ((get_src cl).isEmpty || (get_dst cl).isEmpty) = true
          · rw [if_pos hboth] at hexit
            exact absurd rfl (hexit _)
          · rw [if_neg hboth]
            rfl
      | clause =>
          dsimp only at hexit ⊢
          by_cases hnone : ((get_src cl).isEmpty && (get_dst cl).isEmpty) = true
          · rw [if_pos hnone] at hexit
            exact absurd rfl (hexit _)
          · rw [if_neg hnone]
            by_cases hlen : (get_dst cl).length < (get_src cl).length
            · rw [if_pos hlen, if_pos hlen]
              rfl
            · rw [if_neg hlen, if_neg hlen]
              rfl
      | stmt =>
          dsimp only at hcount hexit ⊢
          by_cases hboth : (get_src cl).isEmpty = (get_dst cl).isEmpty
          · rw [if_pos hboth] at hexit
            exact absurd rfl (hexit _)
          · rw [if_neg hboth] at hexit ⊢
            rcases noExit_bind (onlyExits_get_cell _ _) hexit with ⟨p, hp, hno⟩
            rw [hp, ok_bind]
            by_cases hsrc : (get_src cl).isEmpty = true
            · rw [if_pos hsrc, if_pos hsrc]
              rfl
            · rw [if_neg hsrc] at hcount
              rw [if_neg hsrc, if_neg hsrc, (source_eq hcount).1, ok_bind]
              by_cases hb : behind x = true
              · rw [if_pos hb, if_pos hb]
                rfl
              · rw [if_neg hb, if_neg hb]
                rfl

/-- What the second walk does at a transformation that the first one has accepted. -/
theorem write_trans_eq (hids : ∀ ct ∈ ctxlist, ct.id < num_contexts) {s : Written} {s0 s1 : Count}
    {x : Cell} {cl : List Cell} (hcount : count_trans s0 x cl = .ok s1)
    (hexit : NoExit (write_trans num_contexts ctxlist s x cl)) :
    write_trans num_contexts ctxlist s x cl = s.goes num_contexts (transRole x cl) := by
  rcases (bind_eq_ok_iff _ _ _).mp hcount with ⟨t, ht, _⟩
  rw [write_trans, ht, ok_bind] at hexit ⊢
  rw [set_context_string_bind hids _ _ hexit (b := s.next (transRole x cl))
    fun _ hno => trans_about_eq ht hcount hno, Written.goes, takes_transRole ht]
  by_cases hle : num_contexts ≤ s.ctx_count
  · rw [if_pos hle, if_pos ⟨rfl, hle⟩]
  · rw [if_neg hle, if_neg fun h => hle h.2]

/-- What the second walk does at a directive that the first one has accepted. -/
theorem write_directive_eq (hids : ∀ ct ∈ ctxlist, ct.id < num_contexts) {s : Written} {s0 : Count}
    {x : Cell} {r : Count × Bool} (hcount : count_directive s0 x = .ok r)
    (hexit : NoExit (write_directive num_contexts ctxlist s x)) :
    write_directive num_contexts ctxlist s x =
      (s.goes num_contexts (role x)).map fun s' => (s', stops x) := by
  rw [count_directive] at hcount
  rcases (bind_eq_ok_iff _ _ _).mp hcount with ⟨cl, hcl, h1⟩
  rcases (bind_eq_ok_iff _ _ _).mp h1 with ⟨k, hk, h2⟩
  have hof : directiveOf x = .ok (cl, keyword k) := by
    rw [directiveOf, hcl, ok_bind, hk, ok_bind]
  rw [write_directive, hcl, ok_bind] at hexit ⊢
  rw [stops, role, hof]
  by_cases hclause : xml_chk_struct cl "nna=name" = false
  · rw [if_pos hclause] at hexit
    exact absurd rfl (hexit _)
  · rw [if_neg hclause, hk, ok_bind] at hexit ⊢
    have hnone : ∀ b : Bool, (Except.ok (s.pass, b) : Run (Written × Bool)) =
        (s.goes num_contexts .none).map fun s' => (s', b) := by
      intro b
      rw [Written.goes, if_neg fun h => Bool.noConfusion h.1]
      rfl
    have hpair : ∀ r : Run Written,
      (r >>= fun s' => (Except.ok (s', true) : Run (Written × Bool))) =
        r.map fun s' => (s', true) := by
      intro r
      cases r <;> rfl
    cases hword : keyword k with
    | none =>
        rw [hword] at h2
        cases h2
    | some w =>
        rw [hword] at h2 hexit
        -- The keywords that make no rule pass; the others take the context the first pass gave
        -- them.
        cases w with
        | var | list | condef | incl => exact hnone _
        | ctxdef | dst =>
            dsimp only at hexit ⊢
            rw [hpair, own_context_eq hids (noExit_of_bind hexit)]
        | trans =>
            rcases (bind_eq_ok_iff _ _ _).mp h2 with ⟨s1, hs1, _⟩
            dsimp only at hexit ⊢
            rw [hpair, write_trans_eq hids hs1 (noExit_of_bind hexit)]
        | src =>
            rcases (bind_eq_ok_iff _ _ _).mp h2 with ⟨s1, hs1, _⟩
            rcases noExit_bind (onlyExits_get_cell _ _) hexit with ⟨p, hp, hno⟩
            dsimp only at hno ⊢
            rw [(source_eq hs1).1, ok_bind] at hno
            rw [hp, ok_bind, (source_eq hs1).1, ok_bind]
            by_cases hb : behind x = true
            · rw [if_pos hb] at hno ⊢
              rcases noExit_bind (onlyExits_get_cell _ _) hno with ⟨q, hq, hno⟩
              rw [hq, ok_bind, hpair, own_context_eq hids (noExit_of_bind hno), if_pos hb]
            · rw [if_neg hb, if_neg hb]
              exact hnone _
        | stmt | mode =>
            rcases noExit_bind (onlyExits_getstr _ _) hexit with ⟨name, hname, _⟩
            dsimp only
            rw [hname]
            exact hnone _
        | clean =>
            rcases noExit_bind (onlyExits_get_cell _ _) hexit with ⟨o, ho, hno⟩
            dsimp only at hno ⊢
            rw [ho, ok_bind]
            split at hno
            · exact absurd rfl (hno _)
            · next hopt =>
                rw [if_neg hopt]
                exact hnone _

end Setting

end Directives

section Programs

/-- Everything is counted, and noted for its directive. -/
structure Noted (s s' : Count) (rs : List Role) : Prop where
  num : s'.num_contexts = s.num_contexts + contexts rs
  log : ∃ log, s'.log = s.log ++ log ∧
    log.map (Option.map CtxDef.id) = idsCounted s.num_contexts rs ∧
    ∀ ct ∈ s'.ctxlist, ct ∈ s.ctxlist ∨ some ct ∈ log
  range : (∀ ct ∈ s.ctxlist, ct.id < s.num_contexts) → ∀ ct ∈ s'.ctxlist, ct.id < s'.num_contexts

theorem noted_cons {s s' : Count} {r : Role} {rs : List Role} {name : Option Text}
    (h : Noted (s.next r name) s' rs) : Noted s s' (r :: rs) := by
  rcases h with ⟨num, ⟨log, hlog, hids, hmem⟩, range⟩
  by_cases hhas : r.has = true
  · have hnext : s.next r name = s.new_context name := if_pos hhas
    rw [hnext] at num hlog hids hmem range
    refine ⟨?_, ⟨some ⟨s.num_contexts, name⟩ :: log, ?_, ?_, ?_⟩, ?_⟩
    · rw [num, contexts_cons hhas]
      exact Nat.add_right_comm _ _ _
    · rw [hlog, Count.new_context, List.append_assoc]
      rfl
    · rw [List.map_cons, hids, idsCounted, if_pos hhas, if_pos hhas]
      rfl
    · intro ct hct
      rcases hmem ct hct with hold | hnew
      · rcases List.mem_cons.mp hold with rfl | hold
        · exact Or.inr List.mem_cons_self
        · exact Or.inl hold
      · exact Or.inr (List.mem_cons_of_mem _ hnew)
    · intro hrange
      refine range fun ct hct => ?_
      rcases List.mem_cons.mp hct with rfl | hct
      · exact Nat.lt_succ_self _
      · exact Nat.lt_succ_of_lt (hrange ct hct)
  · have hnext : s.next r name = s.pass := if_neg hhas
    rw [hnext] at num hlog hids hmem range
    refine ⟨?_, ⟨none :: log, ?_, ?_, ?_⟩, range⟩
    · rw [num, contexts_cons_of_not hhas]
      rfl
    · rw [hlog, Count.pass, List.append_assoc]
      rfl
    · rw [List.map_cons, hids, idsCounted, if_neg hhas, if_neg hhas]
      rfl
    · intro ct hct
      rcases hmem ct hct with hold | hnew
      · exact Or.inl hold
      · exact Or.inr (List.mem_cons_of_mem _ hnew)

/-- The first walk, over all directives. -/
theorem noted_of_count {s s' : Count} {ds : List Cell}
    (h : ds.foldlM (fun s x => (count_directive s x).map Prod.fst) s = .ok s') :
    Noted s s' (ds.map role) ∧ ∀ x ∈ ds, ∃ s0 r, count_directive s0 x = .ok r := by
  induction ds generalizing s with
  | nil =>
      cases h
      refine ⟨⟨rfl, ⟨[], (List.append_nil _).symm, rfl, fun ct hct => Or.inl hct⟩,
        fun hr => hr⟩, ?_⟩
      intro x hx
      exact absurd hx List.not_mem_nil
  | cons x ds ih =>
      rw [List.foldlM_cons] at h
      rcases (bind_eq_ok_iff _ _ _).mp h with ⟨s1, hs1, hrest⟩
      cases hcount : count_directive s x with
      | error e =>
          rw [hcount] at hs1
          cases hs1
      | ok r =>
          rw [hcount] at hs1
          cases hs1
          rcases (count_directive_eq hcount).2 with ⟨name, hname⟩
          rcases ih hrest with ⟨hnoted, hall⟩
          rw [hname] at hnoted
          refine ⟨noted_cons hnoted, fun y hy => ?_⟩
          rcases List.mem_cons.mp hy with rfl | hy
          · exact ⟨s, r, hcount⟩
          · exact hall y hy

/-- The second walk, over all directives. -/
theorem written_eq {num_contexts : Nat} {ctxlist : List CtxDef}
    (hids : ∀ ct ∈ ctxlist, ct.id < num_contexts) (s : Written) (ds : List Cell)
    (hcounts : ∀ x ∈ ds, ∃ s0 r, count_directive s0 x = .ok r)
    (hexit : ∀ x ∈ ds, ∀ s, NoExit (write_directive num_contexts ctxlist s x)) :
    (ds.foldlM (fun s x => (write_directive num_contexts ctxlist s x).map Prod.fst) s).map
      Written.log =
      match idsWritten num_contexts s.ctx_count (ds.map role) with
      | none => .error .assertion
      | some ids => .ok (s.log ++ ids) := by
  -- The write stops at the first directive for which no context is left.
  induction ds generalizing s with
  | nil =>
      rw [List.map_nil, idsWritten]
      dsimp only
      rw [List.append_nil]
      rfl
  | cons x ds ih =>
      rcases hcounts x List.mem_cons_self with ⟨s0, r, hcount⟩
      have hstep := write_directive_eq hids hcount (hexit x List.mem_cons_self s)
      have hrest := fun s => ih s (fun y hy => hcounts y (List.mem_cons_of_mem _ hy))
        (fun y hy => hexit y (List.mem_cons_of_mem _ hy))
      rw [List.foldlM_cons, hstep, List.map_cons, idsWritten, Written.goes]
      by_cases hfull : (role x).takes = true ∧ num_contexts ≤ s.ctx_count
      · rw [if_pos hfull, if_pos hfull]
        rfl
      · rw [if_neg hfull, if_neg hfull]
        have hgo : (((Except.ok (s.next (role x)) : Run Written).map fun s' => (s', stops x)).map
          Prod.fst >>=
            fun s' => ds.foldlM (fun s x => (write_directive num_contexts ctxlist s x).map
              Prod.fst) s') =
            ds.foldlM (fun s x => (write_directive num_contexts ctxlist s x).map Prod.fst)
              (s.next (role x)) :=
          rfl
        rw [hgo, hrest]
        have hcount : (s.next (role x)).ctx_count =
            if role x = .counts then s.ctx_count + 1 else s.ctx_count := by
          cases role x <;> rfl
        have hlog : (s.next (role x)).log =
            s.log ++ [if (role x).has = true then some s.ctx_count else none] := by
          cases role x <;> rfl
        rw [hcount, hlog]
        cases idsWritten num_contexts (if role x = .counts then s.ctx_count + 1 else s.ctx_count)
            (ds.map role) with
        | none => rfl
        | some ids =>
            dsimp only [Option.map_some]
            rw [List.append_assoc]
            rfl

/-- The second walk goes where the first one goes. -/
theorem write_directive_stops {num_contexts : Nat} {ctxlist : List CtxDef} {s : Written} {x : Cell}
    {r : Written × Bool} (h : write_directive num_contexts ctxlist s x = .ok r) :
      r.2 = stops x := by
  rw [write_directive] at h
  rcases (bind_eq_ok_iff _ _ _).mp h with ⟨cl, hcl, h1⟩
  split at h1
  · cases h1
  · rcases (bind_eq_ok_iff _ _ _).mp h1 with ⟨k, hk, h2⟩
    rw [stops, directiveOf, hcl, ok_bind, hk, ok_bind]
    cases hword : keyword k with
    | none =>
        rw [hword] at h2
        cases h2
    | some w =>
        rw [hword] at h2
        -- Whether the walk goes into the children depends on the keyword alone.
        cases w with
        | var | list | condef | incl =>
            cases h2
            rfl
        | ctxdef | dst | trans | stmt | mode =>
            rcases (bind_eq_ok_iff _ _ _).mp h2 with ⟨_, _, heq⟩
            cases heq
            rfl
        | src =>
            rcases (bind_eq_ok_iff _ _ _).mp h2 with ⟨_, _, h3⟩
            rcases (bind_eq_ok_iff _ _ _).mp h3 with ⟨more, _, h4⟩
            split at h4
            · rcases (bind_eq_ok_iff _ _ _).mp h4 with ⟨_, _, h5⟩
              rcases (bind_eq_ok_iff _ _ _).mp h5 with ⟨_, _, heq⟩
              cases heq
              rfl
            · cases h4
              rfl
        | clean =>
            rcases (bind_eq_ok_iff _ _ _).mp h2 with ⟨o, _, h3⟩
            dsimp only at h3
            split at h3
            · cases h3
            · cases h3
              rfl

/-- A program that the first walk accepts, and in which no directive makes the second one stop
    with a message. -/
structure Program where
  cells : List Cell
  counted : Count
  counts : xevtgen_count_variables Count.start cells = .ok counted
  writes : ∀ x ∈ visited cells, ∀ s,
    NoExit (write_directive counted.num_contexts counted.ctxlist s x)

/-- The contexts of the second walk. -/
def Program.written (p : Program) : Run Written :=
  xevtgen_write_template p.counted.num_contexts p.counted.ctxlist Written.start p.cells

/-- The roles of the directives, in the order of the walks. -/
def Program.roles (p : Program) : List Role := (visited p.cells).map role

/-- Both walks give a directive the same context, the name of a context stands for the one that
    its own directive sets, and no number is out of range. -/
structure Numbered (p : Program) : Prop where
  same : ∀ w, p.written = .ok w → w.log = p.counted.log.map (Option.map CtxDef.id)
  own : ∀ (w : Written) (name : Option Text) (ct : CtxDef), p.written = .ok w →
    lookup_context p.counted.ctxlist name = some ct →
    ct.name = name ∧ ∃ i : Nat, p.counted.log[i]? = some (some ct) ∧ w.log[i]? = some (some ct.id)
  range : p.written ≠ .error .assertion

/-- The first walk of a program. -/
theorem noted (p : Program) :
    Noted Count.start p.counted p.roles ∧
      ∀ x ∈ visited p.cells, ∃ s0 r, count_directive s0 x = .ok r := by
  have hcounts := p.counts
  rw [xevtgen_count_variables, walk_eq_foldlM fun s x r h => (count_directive_eq h).1] at hcounts
  exact noted_of_count hcounts

/-- The second walk of a program. -/
theorem written_program (p : Program) : p.written.map Written.log =
    match idsWritten p.counted.num_contexts 0 p.roles with
    | none => .error .assertion
    | some ids => .ok ids := by
  rcases noted p with ⟨hnoted, hall⟩
  have hids := hnoted.range fun ct hct => absurd hct List.not_mem_nil
  rw [Program.written, xevtgen_write_template,
    walk_eq_foldlM fun s x r h => write_directive_stops h]
  exact written_eq hids Written.start (visited p.cells) hall p.writes

/-- The contexts of a program are numbered alike if none is counted behind a transformation of
    statements that has its source and its destination in one block, and every other
    transformation that is only a source is in front of a context or behind such a block. -/
theorem numbered_iff (p : Program) : Numbered p ↔ Agreeing p.roles := by
  rcases noted p with ⟨⟨num, ⟨log, hlog, hids, hmem⟩, _⟩, _⟩
  have hwritten := written_program p
  have hcounted : p.counted.log.map (Option.map CtxDef.id) = idsCounted 0 p.roles := by
    rw [hlog]
    exact hids
  rw [← idsWritten_iff p.counted.num_contexts 0 p.roles num, ← hcounted]
  constructor
  · intro h
    cases hw : p.written with
    | error e =>
        rw [hw] at hwritten
        cases hres : idsWritten p.counted.num_contexts 0 p.roles with
        | none =>
            rw [hres] at hwritten
            cases hwritten
            exact absurd hw h.range
        | some ids =>
            rw [hres] at hwritten
            cases hwritten
    | ok w =>
        rw [hw] at hwritten
        cases hres : idsWritten p.counted.num_contexts 0 p.roles with
        | none =>
            rw [hres] at hwritten
            cases hwritten
        | some ids =>
            rw [hres] at hwritten
            have hlogs : w.log = ids := Except.ok.inj hwritten
            rw [← hlogs, h.same w hw]
  · intro h
    rw [h] at hwritten
    have hsame : ∀ w, p.written = .ok w → w.log = p.counted.log.map (Option.map CtxDef.id) := by
      intro w hw
      rw [hw] at hwritten
      exact Except.ok.inj hwritten
    refine ⟨hsame, fun w name ct hw hct => ?_, fun he => ?_⟩
    · -- the name of a context is looked up among those that have been noted
      have hname := List.find?_some (p := fun ct : CtxDef => ct.name == name) hct
      refine ⟨eq_of_beq hname, ?_⟩
      have hnoted : some ct ∈ p.counted.log := by
        rcases hmem ct (List.mem_of_find?_eq_some hct) with hold | hnew
        · exact absurd hold List.not_mem_nil
        · rw [hlog]
          exact hnew
      rcases List.getElem?_of_mem hnoted with ⟨i, hi⟩
      refine ⟨i, hi, ?_⟩
      rw [hsame w hw, List.getElem?_map, hi]
      rfl
    · rw [he] at hwritten
      cases hwritten

end Programs

section Sample

/-- A cell without texts. -/
def plainCell (name : String) (attrs : List (String × Option Text)) (cs : List Cell) : Cell :=
  .mk .node name attrs none none cs

/-- A clause. -/
def clauseOf (name : String) (cs : List Cell) : Cell :=
  plainCell "xev_clause" [("name", some name.toList)] cs

/-- The clauses of a directive. -/
def tgenClauses (cl : List Cell) : Cell :=
  plainCell "xev_clause_list" [] (clauseOf "xev" [] :: clauseOf "tgen" [] :: cl)

/-- `tgen trans stmt src begin`, `tgen dst begin` and `tgen end` in one block. -/
def oneBlock : Cell :=
  plainCell "xev_pragma" []
    [tgenClauses [clauseOf "trans" [], clauseOf "stmt" [], clauseOf "src" [], clauseOf "begin" []],
      plainCell "xev_target" [] [plainCell "SgBreakStmt" [] []],
      tgenClauses [clauseOf "dst" [], clauseOf "begin" []],
      plainCell "xev_target" [] [plainCell "SgContinueStmt" [] []],
      tgenClauses [clauseOf "end" []]]

/-- `tgen trans term src(a) dst(b) ctxdef(c)`. -/
def oneTerm : Cell :=
  plainCell "xev_pragma" []
    [tgenClauses [clauseOf "trans" [], clauseOf "term" [],
      clauseOf "src" [plainCell "xev_literal" [("name", some ['a'])] []],
      clauseOf "dst" [plainCell "xev_literal" [("name", some ['b'])] []],
      clauseOf "ctxdef" [plainCell "xev_literal" [("name", some ['c'])] []]]]

/-- The contexts of the two. -/
def twoContexts : List CtxDef := [⟨1, some ['c']⟩, ⟨0, none⟩]

/-- A directive that hands on its context, behind the check of its number. -/
theorem noExit_checked {β : Type} (n : Nat) (t : Text) (b : β) :
    NoExit ((if n < 2 then .ok t else .error .assertion : Run Text) >>= fun _ => Except.ok b) := by
  intro m
  by_cases h : n < 2
  · rw [if_pos h, ok_bind]
    exact fun he => by cases he
  · rw [if_neg h, error_bind]
    exact fun he => by cases he

theorem noExit_oneBlock (s : Written) : NoExit (write_directive 2 twoContexts s oneBlock) := by
  have hstep : write_directive 2 twoContexts s oneBlock =
      ((if s.ctx_count < 2 then .ok ((List.replicate 2 'x').set s.ctx_count 't')
        else .error .assertion : Run Text) >>= fun _ => .ok s.setBack) >>= fun s => .ok
          (s, true) := by rfl
  rw [hstep, bind_assoc]
  exact noExit_checked s.ctx_count _ _

theorem noExit_oneTerm (s : Written) : NoExit (write_directive 2 twoContexts s oneTerm) := by
  have hstep : write_directive 2 twoContexts s oneTerm =
      ((if s.ctx_count < 2 then .ok ((List.replicate 2 'x').set s.ctx_count 't')
        else .error .assertion : Run Text) >>= fun _ => .ok s.set) >>= fun s => .ok
          (s, true) := by rfl
  rw [hstep, bind_assoc]
  exact noExit_checked s.ctx_count _ _

/-- The two directives, one behind the other. -/
def mixed : Program where
  cells := [oneBlock, oneTerm]
  counted := ⟨2, twoContexts, [some ⟨0, none⟩, some ⟨1, some ['c']⟩]⟩
  counts := by rfl
  writes := by
    have hvisited : visited [oneBlock, oneTerm] = [oneBlock, oneTerm] := by rfl
    rw [hvisited]
    intro x hx s
    rcases List.mem_cons.mp hx with rfl | hx
    · exact noExit_oneBlock s
    · rw [List.mem_singleton.mp hx]
      exact noExit_oneTerm s

/-- The second directive has the context of the first one. -/
theorem mixed_not_numbered : ¬ Numbered mixed := by
  intro h
  have hsame := h.same ⟨1, [some 0, some 0]⟩ (by rfl)
  exact absurd hsame (by decide)

end Sample

end XevXml.Tools.Tgen
