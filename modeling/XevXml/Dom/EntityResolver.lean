import XevXml.Dom.Xml

/-!
# Where Stylesheets Are Looked For

A stylesheet that includes others is looked for in a list of directories, which is given as
one text with colons between the names. The constructor of the resolver takes it apart with
two positions: one of the colon that has been found and one of the colon before it. It
takes the piece from the former colon on, and not from the character behind it, and it
takes as many characters as the position of the latter says. In front of the first colon
both are right, so a text without a colon is stored as it is. As soon as there is a colon,
the last piece begins with it, and a name that begins with a colon is not in the list.

The place of the stylesheet itself is found with one position only, from the beginning of
the path to the last slash.

## Main definitions

* `MyEntityResolver`: What the constructor stores.
* `locLoop`, `dirLoop`: The two loops of the constructor.
* `MyEntityResolver.new`: The constructor.

## Theorems

* `locLoop_eq`: The path up to the last slash.
* `dirLoop_of_no_colon`, `dirLoop_prev`: The pieces of the list.
* `libdirs_iff`: When the list is stored as it was given.
-/

namespace XevXml

/-- What the constructor stores. -/
structure MyEntityResolver where
  xsltfn_ : Text
  xsltloc_ : Text
  libdirs_ : List Text
deriving DecidableEq, Repr

/-- At most `n` characters from a position on. -/
def substr (s : Text) (pos n : Nat) : Text := (s.drop pos).take n

/-- Goes from slash to slash, and keeps what is in front of the one found last. With no
    steps left the loop has not ended. -/
def locLoop (xsltfn_ : Text) : Nat → Nat → Text → Option Text
  | 0, _, _ => none
  | fuel + 1, n, xsltloc_ =>
      match Replace.findFrom ['/'] xsltfn_ n with
      | none => some xsltloc_
      | some n => locLoop xsltfn_ fuel (n + 1) (substr xsltfn_ 0 n)

/-- A directory is stored if it has a name. -/
def pushDir (libdirs_ : List Text) (dir : Text) : List Text :=
  if 0 < dir.length then libdirs_ ++ [dir] else libdirs_

/-- Goes from colon to colon, and stores the pieces. What is left begins at the position
    that is returned with them. -/
def dirLoop (libdirs : Text) : Nat → Nat → Nat → List Text → Option (List Text × Nat)
  | 0, _, _, _ => none
  | fuel + 1, n, prev, libdirs_ =>
      match Replace.findFrom [':'] libdirs n with
      | none => some (libdirs_, prev)
      | some n => dirLoop libdirs fuel (n + 1) n (pushDir libdirs_ (substr libdirs prev n))

/-- The constructor, with the search for the absolute path and the path that is built in as
    parameters. Both loops are allowed one step more than the text has characters. -/
def MyEntityResolver.new (realpath : Text → Option Text) (defaultLibraryPath : Text)
    (xsltfn libdirs : Text) : Except Fatal (Option MyEntityResolver) :=
  match realpath xsltfn with
  | none => .error (.fatal "cannot find the absolute path of the XSLT file")
  | some xsltfn_ => .ok do
      let xsltloc_ ← locLoop xsltfn_ (xsltfn_.length + 1) 0 []
      let libdirs_ ←
        if 0 < libdirs.length then do
          let (libdirs_, prev) ← dirLoop libdirs (libdirs.length + 1) 0 0 []
          some (pushDir libdirs_ (libdirs.drop prev))
        else some []
      let libdirs_ := if libdirs_.length = 0 then [defaultLibraryPath] else libdirs_
      some ⟨xsltfn_, xsltloc_, libdirs_⟩

section Search

variable {c : Char}

/-- A character is found at its first place. -/
theorem find_append_cons {seg : Text} (h : c ∉ seg) (rest : Text) :
    Replace.find [c] (seg ++ c :: rest) = some seg.length := by
  induction seg with
  | nil => simp [Replace.find]
  | cons d seg ih =>
      rw [List.mem_cons, not_or] at h
      have hne : [c].isPrefixOf (d :: (seg ++ c :: rest)) = false := by
        rw [List.isPrefixOf, beq_eq_false_iff_ne.mpr h.1, Bool.false_and]
      rw [List.cons_append, Replace.find, if_neg (by rw [hne]; exact Bool.false_ne_true), ih h.2]
      rfl

theorem findFrom_append_cons {seg : Text} (h : c ∉ seg) (done rest : Text) :
    Replace.findFrom [c] (done ++ (seg ++ c :: rest)) done.length =
      some (done ++ seg).length := by
  rw [Replace.findFrom_append, find_append_cons h, Option.map_some, List.length_append,
    Nat.add_comm]

theorem findFrom_of_not_mem {rest : Text} (h : c ∉ rest) (done : Text) :
    Replace.findFrom [c] (done ++ rest) done.length = none := by
  rw [Replace.findFrom_append, Option.map_eq_none_iff]
  cases hf : Replace.find [c] rest with
  | none => rfl
  | some i =>
      obtain ⟨post, -, hsplit⟩ := Replace.find_eq_some hf
      have hmem : c ∈ rest := by
        rw [hsplit]
        simp
      exact absurd hmem h

/-- Behind a character that has been found the rest of the text is ahead. -/
theorem append_found (done seg rest : Text) :
    done ++ (seg ++ c :: rest) = (done ++ seg ++ [c]) ++ rest := by
  simp only [List.append_assoc, List.singleton_append]

theorem length_found (done seg : Text) :
    (done ++ seg).length + 1 = (done ++ seg ++ [c]).length := by
  simp only [List.length_append, List.length_singleton]

end Search

section Place

theorem locLoop_of_no_slash {rest : Text} (h : '/' ∉ rest) (done : Text) (fuel : Nat) (loc : Text) :
    locLoop (done ++ rest) (fuel + 1) done.length loc = some loc := by
  rw [locLoop, findFrom_of_not_mem h]

/-- The loop ends with the path in front of the last slash. -/
theorem locLoop_append {base : Text} (hbase : '/' ∉ base) (fuel : Nat) (done dir : Text)
    (hfuel : dir.length + 1 < fuel) (loc : Text) :
    locLoop (done ++ (dir ++ '/' :: base)) fuel done.length loc = some (done ++ dir) := by
  induction fuel generalizing done dir loc with
  | zero => omega
  | succ fuel ih =>
      rw [locLoop]
      by_cases hdir : '/' ∈ dir
      · -- A slash in front of the last one is passed.
        obtain ⟨seg, dir', rfl, hseg⟩ := List.eq_append_cons_of_mem hdir
        rw [List.length_append, List.length_cons] at hfuel
        rw [List.append_assoc, List.cons_append, findFrom_append_cons hseg]
        simp only []
        rw [append_found, length_found (c := '/'), ih _ _ (by omega)]
        simp only [List.append_assoc, List.singleton_append]
      · rw [findFrom_append_cons hdir]
        have hloc : substr (done ++ (dir ++ '/' :: base)) 0 (done ++ dir).length = done ++ dir := by
          rw [substr, List.drop_zero, ← List.append_assoc, List.take_left]
        obtain ⟨k, rfl⟩ := Nat.exists_eq_add_of_le' (by omega : 1 ≤ fuel)
        simp only [hloc]
        rw [append_found, length_found (c := '/'), locLoop_of_no_slash hbase]

end Place

section Directories

theorem dirLoop_of_no_colon {rest : Text} (h : ':' ∉ rest) (done : Text) (fuel prev : Nat)
    (dirs : List Text) :
    dirLoop (done ++ rest) (fuel + 1) done.length prev dirs = some (dirs, prev) := by
  rw [dirLoop, findFrom_of_not_mem h]

/-- If there is a colon, what is left for the last piece begins with one. -/
theorem dirLoop_of_colon (fuel : Nat) (done rest : Text) (hfuel : rest.length < fuel)
    (h : ':' ∈ rest) (prev : Nat) (dirs : List Text) :
    ∃ dirs' prev' post, dirLoop (done ++ rest) fuel done.length prev dirs = some (dirs', prev') ∧
      (done ++ rest).drop prev' = ':' :: post := by
  induction fuel generalizing done rest prev dirs with
  | zero => omega
  | succ fuel ih =>
      obtain ⟨seg, rest, rfl, hseg⟩ := List.eq_append_cons_of_mem h
      rw [List.length_append, List.length_cons] at hfuel
      rw [dirLoop, findFrom_append_cons hseg]
      simp only []
      by_cases hrest : ':' ∈ rest
      · rw [length_found (c := ':'), append_found]
        exact ih _ _ (by omega) hrest _ _
      · obtain ⟨k, rfl⟩ := Nat.exists_eq_add_of_le' (by omega : 1 ≤ fuel)
        have hlast := dirLoop_of_no_colon hrest (done ++ seg ++ [':']) k (done ++ seg).length
        rw [← length_found, ← append_found] at hlast
        exact ⟨_, _, rest, hlast _, by rw [← List.append_assoc, List.drop_left]⟩

end Directories

section Constructor

variable {realpath : Text → Option Text} {defaultLibraryPath xsltfn dir base : Text}

/-- Directories that are joined by colons. -/
def joined (segs : List Text) : Text := [':'].intercalate segs

/-- The names among the pieces of a list. -/
def names (segs : List Text) : List Text := segs.filter (· ≠ [])

theorem pushDir_eq (dirs : List Text) (dir : Text) :
    pushDir dirs dir = if dir ≠ [] then dirs ++ [dir] else dirs := by
  cases dir <;> rfl

/-- The place of the stylesheet does not depend on the list. -/
theorem new_eq (hreal : realpath xsltfn = some (dir ++ '/' :: base)) (hbase : '/' ∉ base)
    {libdirs : Text} {dirs : List Text} {prev : Nat}
    (hdirs : dirLoop libdirs (libdirs.length + 1) 0 0 [] = some (dirs, prev)) :
    MyEntityResolver.new realpath defaultLibraryPath xsltfn libdirs = .ok (some
      ⟨dir ++ '/' :: base, dir,
        let stored := if 0 < libdirs.length then pushDir dirs (libdirs.drop prev) else []
        if stored.length = 0 then [defaultLibraryPath] else stored⟩) := by
  have hloc := locLoop_append hbase ((dir ++ '/' :: base).length + 1) [] dir
    (by simp only [List.length_append, List.length_cons]; omega) []
  rw [List.nil_append, List.length_nil, List.nil_append] at hloc
  rw [MyEntityResolver.new, hreal]
  by_cases hlen : 0 < libdirs.length
  · simp only [hloc, if_pos hlen, hdirs, bind, Option.bind]
  · simp only [hloc, if_neg hlen, bind, Option.bind]

theorem mem_joined {segs : List Text} (h : 2 ≤ segs.length) : ':' ∈ joined segs := by
  match segs with
  | a :: b :: rest => simp [joined, List.intercalate]

/-- The constructor stores the names if and only if they are given as one name without a
    colon; the place of the stylesheet is always right. -/
theorem libdirs_iff (hreal : realpath xsltfn = some (dir ++ '/' :: base)) (hbase : '/' ∉ base)
    (segs : List Text) (hsegs : ∀ s ∈ segs, ':' ∉ s) :
    ∃ r, MyEntityResolver.new realpath defaultLibraryPath xsltfn (joined segs) = .ok (some r) ∧
      r.xsltloc_ = dir ∧
      (r.libdirs_ = names segs ↔ joined segs ≠ [] ∧ ':' ∉ joined segs) := by
  by_cases hcolon : ':' ∈ joined segs
  · obtain ⟨dirs, prev, post, hdirs, hpost⟩ :=
      dirLoop_of_colon ((joined segs).length + 1) [] (joined segs) (Nat.lt_succ_self _) hcolon 0 []
    rw [List.nil_append, List.length_nil] at hdirs
    rw [List.nil_append] at hpost
    refine ⟨_, new_eq hreal hbase hdirs, rfl, iff_of_false ?_ fun h => h.2 hcolon⟩
    have hlen : 0 < (joined segs).length := List.length_pos_of_mem hcolon
    have hstored : pushDir dirs ((joined segs).drop prev) = dirs ++ [':' :: post] := by
      rw [pushDir_eq, hpost, if_pos (List.cons_ne_nil _ _)]
    simp only [if_pos hlen, hstored, List.length_append, List.length_singleton,
      Nat.add_eq_zero_iff, one_ne_zero, and_false, if_false]
    -- The last piece begins with a colon, so it is none of the names.
    intro heq
    have hmem : ':' :: post ∈ names segs := by
      rw [← heq]
      simp
    exact hsegs _ (List.mem_of_mem_filter hmem) List.mem_cons_self
  · have hdirs := dirLoop_of_no_colon hcolon [] (joined segs).length 0 []
    rw [List.nil_append, List.length_nil] at hdirs
    refine ⟨_, new_eq hreal hbase hdirs, rfl, ?_⟩
    match segs with
    | [] => exact iff_of_false (by simp [joined, names]) fun h => h.1 rfl
    | [seg] =>
        have hone : joined [seg] = seg := by simp [joined, List.intercalate]
        rw [hone]
        by_cases hseg : seg = []
        · subst hseg
          exact iff_of_false (by simp [names]) fun h => h.1 rfl
        · have hlen : 0 < seg.length := List.length_pos_of_ne_nil hseg
          have hnames : names [seg] = [seg] := by simp [names, hseg]
          refine iff_of_true ?_ ⟨hseg, hsegs seg List.mem_cons_self⟩
          simp only [if_pos hlen, pushDir_eq, List.drop_zero, hseg, ne_eq, not_false_eq_true,
            if_true,
            List.nil_append, List.length_singleton, one_ne_zero, if_false, hnames]
    | a :: b :: rest => exact absurd (mem_joined (by simp)) hcolon

/-- Two directories: the second one is stored with the colon in front of it. -/
theorem two_libdirs :
    joined ["a".toList, "b".toList] = "a:b".toList ∧
      MyEntityResolver.new (fun _ => some "/x.xsl".toList) "lib".toList "x.xsl".toList
        (joined ["a".toList, "b".toList]) =
          .ok (some ⟨"/x.xsl".toList, [], ["a".toList, ":b".toList]⟩) ∧
      ["a".toList, ":b".toList] ≠ names ["a".toList, "b".toList] := by
  decide

theorem libdirs_iff_one :
    ∃ r, MyEntityResolver.new (fun _ => some "/s/x.xsl".toList) "lib".toList "x.xsl".toList
        (joined ["a".toList, []]) = .ok (some r) ∧
      r.xsltloc_ = "/s".toList ∧
      (r.libdirs_ = names ["a".toList, []] ↔
        joined ["a".toList, []] ≠ [] ∧ ':' ∉ joined ["a".toList, []]) :=
  libdirs_iff (show some "/s/x.xsl".toList = some ("/s".toList ++ '/' :: "x.xsl".toList) from rfl)
    (by decide) _ (by decide)

end Constructor

end XevXml
