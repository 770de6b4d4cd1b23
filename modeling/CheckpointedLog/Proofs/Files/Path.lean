import CheckpointedLog.Files.Path
import Mathlib.Data.List.Basic
import Mathlib.Data.List.TakeWhile

namespace CheckpointedLog.Path

theorem segments_append_slash (front rest : List Char) :
    segments (front ++ '/' :: rest) = segments front ++ segments rest := by
  rw [segments, List.splitOn_append_cons_self, List.filter_append, segments, segments]

theorem segments_nil : segments [] = [] := rfl

theorem segments_of_not_mem {name : List Char} (hslash : '/' ∉ name) (hne : name ≠ []) :
    segments name = [name] := by
  rw [segments, List.splitOn_eq_singleton hslash]
  simp [hne]

/-- What a name may stand behind: nothing, or a text that ends in a slash. -/
def Leads (front : List Char) : Prop := front = [] ∨ ∃ f, front = f ++ ['/']

theorem segments_append_name {front name : List Char} (hfront : Leads front) (hslash : '/' ∉ name)
    (hne : name ≠ []) : segments (front ++ name) = segments front ++ [name] := by
  rcases hfront with rfl | ⟨f, rfl⟩
  · rw [List.nil_append, segments_of_not_mem hslash hne, segments_nil, List.nil_append]
  · rw [List.append_assoc, List.singleton_append, segments_append_slash, segments_append_slash,
      segments_nil, List.append_nil, segments_of_not_mem hslash hne]

structure Moves (name : List Char) : Prop where
  slash : '/' ∉ name
  nonempty : name ≠ []
  dot : name ≠ ['.']

/-- A name of its own, which goes on into a directory. -/
structure Proper (name : List Char) : Prop extends Moves name where
  dots : name ≠ ['.', '.']

theorem Proper.ofList_ne {name : List Char} (h : Proper name) : String.ofList name ≠ ".." := by
  intro heq
  refine h.dots ?_
  rw [← String.toList_ofList (l := name), heq]
  rfl

theorem names_ofList (cs : List Char) :
    names (String.ofList cs) = ((segments cs).filter (· != ['.'])).map String.ofList := by
  rw [names, String.toList_ofList]

theorem names_append_name {front name : List Char} (hfront : Leads front) (hname : Moves name) :
    names (String.ofList (front ++ name)) = names (String.ofList front) ++ [String.ofList name] := by
  rw [names_ofList, segments_append_name hfront hname.slash hname.nonempty, List.filter_append,
    List.map_append, names_ofList]
  simp [hname.dot]

theorem endsInDot_append_name {front name : List Char} (hfront : Leads front) (hname : Moves name) :
    endsInDot (String.ofList (front ++ name)) = false := by
  rw [endsInDot, String.toList_ofList, segments_append_name hfront hname.slash hname.nonempty,
    List.getLast?_append]
  simp [hname.dot]

theorem endsInDots_append_name {front name : List Char} (hfront : Leads front) (hname : Proper name) :
    endsInDots (String.ofList (front ++ name)) = false := by
  rw [endsInDots, String.toList_ofList, segments_append_name hfront hname.slash hname.nonempty,
    List.getLast?_append]
  simp [hname.dot, hname.dots]

theorem meansDirectory_append_name {front name : List Char} (hfront : Leads front)
    (hname : Moves name) : meansDirectory (String.ofList (front ++ name)) = false := by
  rw [meansDirectory, endsInDot_append_name hfront hname, Bool.or_false, String.toList_ofList,
    List.getLast?_append_of_ne_nil _ hname.nonempty, beq_eq_false_iff_ne]
  intro hlast
  exact hname.slash (List.mem_of_getLast? hlast)

theorem isEmpty_append_name (front : List Char) {name : List Char} (hname : Moves name)
    (rest : List Char) :
    (String.ofList (front ++ name ++ rest)).isEmpty = false := by
  rw [String.isEmpty_eq_false_iff, ne_eq, ← String.toList_eq_nil_iff, String.toList_ofList]
  simp [hname.nonempty]

theorem isAbsolute_append_name (front : List Char) {name : List Char} (hname : Moves name)
    (rest : List Char) :
    isAbsolute (String.ofList (front ++ name ++ rest)) = (front.head? == some '/') := by
  rw [isAbsolute, String.toList_ofList]
  cases front with
  | nil =>
    cases name with
    | nil => exact absurd rfl hname.nonempty
    | cons c cs =>
      have hc : c ≠ '/' := fun h => hname.slash (h ▸ List.mem_cons_self ..)
      simp [hc]
  | cons c cs => simp

theorem names_reverse_trimReversed (cs : List Char) :
    names (String.ofList (trimReversed cs).reverse) = names (String.ofList cs.reverse) := by
  fun_induction trimReversed cs with
  | case1 c cs ih =>
    rw [ih, names_ofList, names_ofList, List.reverse_cons (a := '/'), segments_append_slash,
      segments_nil, List.append_nil]
  | case2 cs ih =>
    -- The dot and the slash before it stay at the same place.
    have hdot : segments ['.'] = [['.']] := segments_of_not_mem (by decide) (by decide)
    rw [ih, names_ofList, names_ofList, List.reverse_cons (a := '.'), List.reverse_cons,
      List.append_assoc, List.singleton_append, segments_append_slash, segments_append_slash,
      hdot, segments_nil]
    simp
  | case3 => rfl

theorem exists_append_trimReversed (cs : List Char) : ∃ dropped, cs = dropped ++ trimReversed cs := by
  fun_induction trimReversed cs with
  | case1 c cs ih =>
    obtain ⟨dropped, h⟩ := ih
    exact ⟨'/' :: dropped, congrArg (List.cons '/') h⟩
  | case2 cs ih =>
    obtain ⟨dropped, h⟩ := ih
    exact ⟨'.' :: dropped, congrArg (List.cons '.') h⟩
  | case3 => exact ⟨[], rfl⟩

/-- How a path is taken apart at its last slash. What follows the name, if anything, stays at its
place. -/
structure SplitsInto (path : String) (front name : List Char) : Prop where
  leads : Leads front
  slash : '/' ∉ name
  names : names path = names (String.ofList (front ++ name))
  rest : ∃ rest, path.toList = front ++ name ++ rest

namespace SplitsInto

variable {path : String} {front name : List Char}

theorem names_eq (h : SplitsInto path front name) (hname : Moves name) :
    Path.names path = Path.names (String.ofList front) ++ [String.ofList name] :=
  h.names.trans (names_append_name h.leads hname)

theorem eq_ofList (h : SplitsInto path front name) :
    ∃ rest, path = String.ofList (front ++ name ++ rest) := by
  obtain ⟨rest, hrest⟩ := h.rest
  exact ⟨rest, by rw [← hrest, String.ofList_toList]⟩

end SplitsInto

/-- A search for the last slash ends behind one, or at the beginning. -/
theorem leads_dropWhile (reversed : List Char) : Leads (reversed.dropWhile (· != '/')).reverse := by
  cases hfront : reversed.dropWhile (· != '/') with
  | nil => exact Or.inl rfl
  | cons c cs =>
    have hc := List.head?_dropWhile_not (· != '/') reversed
    rw [hfront] at hc
    have hslash : c = '/' := by simpa using hc
    exact Or.inr ⟨cs.reverse, by rw [List.reverse_cons, hslash]⟩

theorem slash_not_mem_takeWhile (reversed : List Char) :
    '/' ∉ (reversed.takeWhile (· != '/')).reverse := by
  rw [List.mem_reverse]
  intro hmem
  have hne := List.mem_takeWhile_imp hmem
  simp at hne

theorem splitsInto_splitLast (path : String) :
    SplitsInto path (splitLast path).1 (splitLast path).2 := by
  have hwhole : (splitLast path).1 ++ (splitLast path).2 =
      (trimReversed path.toList.reverse).reverse := by
    rw [splitLast, ← List.reverse_append, List.takeWhile_append_dropWhile]
  constructor
  case leads => exact leads_dropWhile _
  case slash => exact slash_not_mem_takeWhile _
  case names =>
    rw [hwhole, names_reverse_trimReversed, List.reverse_reverse, String.ofList_toList]
  case rest =>
    obtain ⟨dropped, h⟩ := exists_append_trimReversed path.toList.reverse
    refine ⟨dropped.reverse, ?_⟩
    rw [hwhole, ← List.reverse_append, ← h, List.reverse_reverse]

/-- A path that ends in a name of its own, which does not end in a dot, is taken apart at this name. -/
theorem splitLast_append_name {front name : List Char} (hfront : Leads front) (hslash : '/' ∉ name)
    (hlast : ∃ c cs, name = cs ++ [c] ∧ c ≠ '.') :
    splitLast (String.ofList (front ++ name)) = (front, name) := by
  obtain ⟨c, cs, rfl, hdot⟩ := hlast
  have hc : c ≠ '/' := fun h => hslash (h ▸ List.mem_append_right cs (List.mem_singleton_self c))
  have htrim : trimReversed (front ++ (cs ++ [c])).reverse = (cs ++ [c]).reverse ++ front.reverse := by
    rw [List.reverse_append, List.reverse_append, List.reverse_singleton, List.singleton_append,
      List.cons_append]
    unfold trimReversed
    split
    next h => exact absurd (List.cons.inj h).1 hc
    next h => exact absurd (List.cons.inj h).1 hdot
    next => rfl
  -- The slash at the end of what is before the name stops the search for it.
  have hname : ∀ x ∈ (cs ++ [c]).reverse, (x != '/') = true := by
    intro x hx
    rw [bne_iff_ne]
    rintro rfl
    exact hslash (List.mem_reverse.mp hx)
  have hrest : front.reverse.takeWhile (· != '/') = [] ∧
      front.reverse.dropWhile (· != '/') = front.reverse := by
    rcases hfront with rfl | ⟨f, rfl⟩
    · exact ⟨rfl, rfl⟩
    · rw [List.reverse_append, List.reverse_singleton, List.singleton_append]
      exact ⟨rfl, rfl⟩
  rw [splitLast, String.toList_ofList, htrim, List.takeWhile_append_of_pos hname,
    List.dropWhile_append_of_pos hname, hrest.1, hrest.2, List.append_nil, List.reverse_reverse,
    List.reverse_reverse]

theorem splitExtension_subset (name : List Char) : (splitExtension name).1 ⊆ name := by
  intro c hc
  simp only [splitExtension] at hc
  split at hc
  · exact hc
  · exact hc
  next dot stem _ hdrop =>
    have hmem : c ∈ name.reverse.dropWhile (· != '.') := by
      rw [hdrop]
      exact List.mem_cons_of_mem _ (List.mem_reverse.mp hc)
    exact List.mem_reverse.mp ((List.dropWhile_sublist _).subset hmem)

/-- A path with another extension ends in another name, or it stays. -/
theorem withExtension_cases (path extension : String) (hslash : '/' ∉ extension.toList)
    (hdot : '.' ∉ extension.toList) (hne : extension.toList ≠ []) :
    withExtension path extension = path ∨
      ∃ front name name', SplitsInto path front name ∧ Proper name ∧ Proper name' ∧
        withExtension path extension = String.ofList (front ++ name') := by
  unfold withExtension
  split
  next => exact Or.inl rfl
  next name hname =>
    right
    have hsplit := splitsInto_splitLast path
    unfold fileName? at hname
    obtain ⟨hproper, hname⟩ := Option.ite_none_left_eq_some.mp hname
    simp only [Bool.or_eq_true, List.isEmpty_iff, beq_iff_eq, not_or] at hproper
    rw [Option.some.inj hname] at hsplit hproper
    -- The new name ends in the extension, so that it does not end in a dot.
    have hlast (other : List Char) :
        (splitExtension name).1 ++ '.' :: extension.toList ≠ other ++ ['.'] := by
      intro h
      have hends := congrArg List.getLast? h
      rw [List.append_cons, List.getLast?_append_of_ne_nil _ hne, List.getLast?_concat] at hends
      exact hdot (List.mem_of_getLast? hends)
    have hmoves : Moves ((splitExtension name).1 ++ '.' :: extension.toList) := by
      constructor
      case slash =>
        simp only [List.mem_append, List.mem_cons, not_or]
        exact ⟨fun h => hsplit.slash (splitExtension_subset name h), by decide, hslash⟩
      case nonempty => simp
      case dot => exact hlast []
    refine ⟨_, name, _, hsplit, ⟨⟨hsplit.slash, hproper.1.1, hproper.1.2⟩, hproper.2⟩,
      ⟨hmoves, hlast ['.']⟩, ?_⟩
    apply String.toList_inj.mp
    simp [String.toList_append]

theorem splitExtension_append {stem ext : List Char} (hstem : stem ≠ []) (hext : '.' ∉ ext) :
    splitExtension (stem ++ '.' :: ext) = (stem, some ext) := by
  have hreverse : (stem ++ '.' :: ext).reverse = ext.reverse ++ '.' :: stem.reverse := by simp
  have hne : ∀ c ∈ ext.reverse, (c != '.') = true := by
    intro c hc
    rw [bne_iff_ne]
    rintro rfl
    exact hext (List.mem_reverse.mp hc)
  have hdrop : (stem ++ '.' :: ext).reverse.dropWhile (· != '.') = '.' :: stem.reverse := by
    rw [hreverse, List.dropWhile_append_of_pos hne]
    rfl
  have htake : (stem ++ '.' :: ext).reverse.takeWhile (· != '.') = ext.reverse := by
    rw [hreverse, List.takeWhile_append_of_pos hne]
    simp
  simp only [splitExtension, hdrop, htake]
  split
  next h => cases h
  next h => exact absurd (List.reverse_eq_nil_iff.mp (List.cons.inj h).2) hstem
  next h =>
    rw [← (List.cons.inj h).2, List.reverse_reverse, List.reverse_reverse]

/-- What follows the last dot of a name is what another extension takes the place of. -/
theorem withExtension_append_name {front stem ext : List Char} (hfront : Leads front)
    (hstem : '/' ∉ stem) (hext : '/' ∉ ext) (hdot : '.' ∉ ext) (hne : ext ≠ []) (hname : stem ≠ [])
    (extension : String) :
    withExtension (String.ofList (front ++ (stem ++ '.' :: ext))) extension =
      String.ofList (front ++ (stem ++ '.' :: extension.toList)) := by
  have hslash : '/' ∉ stem ++ '.' :: ext := by
    simp [hstem, hext]
  -- The name ends as its extension does, which is not with a dot.
  have hlast : ∃ c cs, stem ++ '.' :: ext = cs ++ [c] ∧ c ≠ '.' := by
    refine ⟨ext.getLast hne, stem ++ '.' :: ext.dropLast, ?_, ?_⟩
    · rw [List.append_assoc, List.cons_append, List.dropLast_append_getLast]
    · exact fun h => hdot (h ▸ List.getLast_mem hne)
  have hsplit := splitLast_append_name hfront hslash hlast
  have hfile : fileName? (String.ofList (front ++ (stem ++ '.' :: ext))) =
      some (stem ++ '.' :: ext) := by
    obtain ⟨c, cs, hcs, hc⟩ := hlast
    have hproper : ((stem ++ '.' :: ext).isEmpty || stem ++ '.' :: ext == ['.'] ||
        stem ++ '.' :: ext == ['.', '.']) = false := by
      have hends := congrArg List.getLast? hcs
      rw [List.getLast?_concat] at hends
      simp only [Bool.or_eq_false_iff, beq_eq_false_iff_ne]
      refine ⟨⟨?_, ?_⟩, ?_⟩
      · simp
      · intro h
        rw [h] at hends
        exact hc (Option.some.inj hends).symm
      · intro h
        rw [h] at hends
        exact hc (Option.some.inj hends).symm
    simp only [fileName?, hsplit, hproper, Bool.false_eq_true, if_false]
  simp only [withExtension, hfile, hsplit, splitExtension_append hname hdot]
  apply String.toList_inj.mp
  simp [String.toList_append]

/-- The paths of the names in a directory end in these names, and what is before them leads to the
directory. -/
theorem exists_join_eq {directory : String} (hdirectory : directory ≠ "") :
    ∃ front, Leads front ∧ names (String.ofList front) = names directory ∧
      front.head? = directory.toList.head? ∧
      ∀ name : String, Moves name.toList → join directory name = String.ofList (front ++ name.toList) := by
  have hempty : directory.isEmpty = false := String.isEmpty_eq_false_iff.mpr hdirectory
  have hcs : directory.toList ≠ [] := fun h => hdirectory (String.toList_eq_nil_iff.mp h)
  have habsolute (name : String) (hname : Moves name.toList) : isAbsolute name = false := by
    rw [isAbsolute, beq_eq_false_iff_ne]
    exact fun h => hname.slash (List.mem_of_head? h)
  by_cases hslash : directory.toList.getLast? = some '/'
  · refine ⟨directory.toList, Or.inr (List.getLast?_eq_some_iff.mp hslash), ?_, rfl, ?_⟩
    · rw [String.ofList_toList]
    · intro name hname
      rw [join, hempty, habsolute name hname, Bool.or_false, if_neg Bool.false_ne_true,
        if_pos (beq_iff_eq.mpr hslash), String.ofList_append, String.ofList_toList,
        String.ofList_toList]
  · refine ⟨directory.toList ++ ['/'], Or.inr ⟨_, rfl⟩, ?_, List.head?_append_of_ne_nil _ hcs, ?_⟩
    · rw [names_ofList, segments_append_slash, segments_nil, List.append_nil, names]
    · intro name hname
      rw [join, hempty, habsolute name hname, Bool.or_false, if_neg Bool.false_ne_true,
        if_neg (by rw [beq_iff_eq]; exact hslash), String.ofList_append, String.ofList_append,
        String.ofList_toList, String.ofList_toList]

theorem trimReversed_eq_nil (cs : List Char) (h : trimReversed cs = []) : cs = [] := by
  fun_induction trimReversed cs with
  | case1 c cs ih => cases ih h
  | case2 cs ih => cases ih h
  | case3 cs h₁ h₂ => exact h

theorem trimReversed_ne_dot (cs rest : List Char) : trimReversed cs ≠ '.' :: '/' :: rest := by
  fun_induction trimReversed cs with
  | case1 c cs ih => exact ih
  | case2 cs ih => exact ih
  | case3 cs h₁ h₂ => exact fun h => h₂ rest h

theorem trimReversed_ne_slash (cs : List Char) (c : Char) (rest : List Char) :
    trimReversed cs ≠ '/' :: c :: rest := by
  fun_induction trimReversed cs with
  | case1 c cs ih => exact ih
  | case2 cs ih => exact ih
  | case3 cs h₁ h₂ => exact fun h => h₁ c rest h

theorem exists_parent? {path : String} (hnames : names path ≠ []) :
    ∃ directory, parent? path = some directory := by
  apply Option.ne_none_iff_exists'.mp
  intro h
  have hname : (splitLast path).2.isEmpty = true := by
    by_contra hne
    simp only [parent?, if_neg hne] at h
    cases h
  have htrimmed := names_reverse_trimReversed path.toList.reverse
  have hslash := trimReversed_ne_slash path.toList.reverse
  rw [List.reverse_reverse, String.ofList_toList] at htrimmed
  rw [← htrimmed] at hnames
  simp only [splitLast] at hname
  generalize trimReversed path.toList.reverse = trimmed at hname hnames hslash
  cases trimmed with
  | nil => exact hnames rfl
  | cons c cs =>
    -- The search for the last slash ends at once, at one that starts the path.
    have hc : c = '/' := by
      by_contra hne
      simp [hne] at hname
    subst hc
    cases cs with
    | cons c cs => exact hslash c cs rfl
    | nil => exact hnames rfl

/-- Where nothing is left to be trimmed, a dot at the end is all there is. -/
theorem names_of_endsInDot_trimmed (cs : List Char)
    (h : endsInDot (String.ofList (trimReversed cs).reverse) = true) :
    names (String.ofList (trimReversed cs).reverse) = [] := by
  have hdot := trimReversed_ne_dot cs
  have hslash := trimReversed_ne_slash cs
  generalize trimReversed cs = trimmed at h hdot hslash ⊢
  have hwhole : trimmed.reverse =
      (trimmed.dropWhile (· != '/')).reverse ++ (trimmed.takeWhile (· != '/')).reverse := by
    rw [← List.reverse_append, List.takeWhile_append_dropWhile]
  have hleads := leads_dropWhile trimmed
  have hname := slash_not_mem_takeWhile trimmed
  generalize (trimmed.dropWhile (· != '/')).reverse = front at hwhole hleads
  generalize (trimmed.takeWhile (· != '/')).reverse = name at hwhole hname
  obtain rfl := List.reverse_eq_iff.mp hwhole
  rw [List.reverse_reverse] at h ⊢
  rw [endsInDot, String.toList_ofList, beq_iff_eq] at h
  rw [names_ofList]
  by_cases hne : name = []
  · subst hne
    rcases hleads with rfl | ⟨f, rfl⟩
    · rfl
    · -- Nothing is left before a slash at the end.
      rcases List.eq_nil_or_concat f with rfl | ⟨f, c, rfl⟩
      · rfl
      · have hshape : (f.concat c ++ ['/'] ++ []).reverse = '/' :: c :: f.reverse := by simp
        exact absurd hshape (hslash c f.reverse)
  · rw [segments_append_name hleads hname hne, List.getLast?_append, List.getLast?_singleton,
      Option.some_or, Option.some.injEq] at h
    subst h
    rcases hleads with rfl | ⟨f, rfl⟩
    · rfl
    · have hshape : (f ++ ['/'] ++ ['.']).reverse = '.' :: '/' :: f.reverse := by simp
      exact absurd hshape (hdot f.reverse)

/-- The directory that a path is in is another path that leads to all its names but the last one. -/
structure ParentOf (path directory : String) : Prop where
  shorter : directory.toList.length < path.toList.length
  names : names path = names directory ∨ ∃ name, names path = names directory ++ [name]
  absolute : isAbsolute directory = isAbsolute path
  dot : endsInDot directory = true → Path.names directory = []

theorem ParentOf.names_leads {path directory : String} (h : ParentOf path directory) :
    Path.names directory <+: Path.names path := by
  rcases h.names with hsame | ⟨name, hname⟩
  · exact hsame ▸ List.prefix_refl _
  · exact ⟨[name], hname.symm⟩

theorem parentOf_parent? {path directory : String} (h : parent? path = some directory) :
    ParentOf path directory := by
  have hsplit := splitsInto_splitLast path
  simp only [parent?] at h
  obtain ⟨hempty, h⟩ := Option.ite_none_left_eq_some.mp h
  obtain rfl := Option.some.inj h
  generalize (splitLast path).1 = front at hsplit
  generalize (splitLast path).2 = name at hsplit hempty
  obtain ⟨rest, hrest⟩ := hsplit.rest
  obtain ⟨dropped, hdropped⟩ := exists_append_trimReversed front.reverse
  have hne : name ≠ [] := fun hnil => hempty (List.isEmpty_iff.mpr hnil)
  have hnames := names_reverse_trimReversed front.reverse
  rw [List.reverse_reverse] at hnames
  have hdot := names_of_endsInDot_trimmed front.reverse
  have hreversed := trimReversed_eq_nil front.reverse
  generalize trimReversed front.reverse = trimmed at hdropped hnames hdot hreversed
  constructor
  case shorter =>
    have hlength := congrArg List.length hdropped
    have hpos := List.length_pos_iff.mpr hne
    rw [hrest, String.toList_ofList]
    simp only [List.length_append, List.length_reverse] at hlength ⊢
    omega
  case names =>
    rw [hnames, hsplit.names]
    by_cases hname : name = ['.']
    · left
      rw [hname, names_ofList, segments_append_name hsplit.leads (by decide) (by decide), names_ofList]
      simp
    · exact Or.inr ⟨_, names_append_name hsplit.leads ⟨hsplit.slash, hne, hname⟩⟩
  case absolute =>
    have hfront : front = trimmed.reverse ++ dropped.reverse := by
      rw [← List.reverse_append, ← hdropped, List.reverse_reverse]
    rw [isAbsolute, isAbsolute, hrest, String.toList_ofList]
    cases htrimmed : trimmed with
    | nil =>
      -- The path begins with its last name, which has no slash.
      have hnil : front = [] := List.reverse_eq_nil_iff.mp (hreversed htrimmed)
      obtain ⟨c, cs, rfl⟩ := List.exists_cons_of_ne_nil hne
      have hc : c ≠ '/' := fun hc => hsplit.slash (hc ▸ List.mem_cons_self)
      simp [hnil, hc]
    | cons c cs =>
      have hne' : (c :: cs).reverse ≠ [] := by simp
      rw [hfront, htrimmed, List.append_assoc, List.append_assoc, List.head?_append_of_ne_nil _ hne']
  case dot => exact hdot

end CheckpointedLog.Path
