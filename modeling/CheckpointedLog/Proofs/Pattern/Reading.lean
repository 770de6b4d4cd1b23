import CheckpointedLog.Pattern.Reader
import CheckpointedLog.Proofs.Pattern.Matching

/-!
The reader takes expressions for what they are written as, in front of anything that cannot go on with
them. So the pattern library that the program runs with does what is documented, as far as the plain atoms
go.
-/
namespace CheckpointedLog.Pattern

open Regex

/-- The characters that mean something outside of classes. -/
def specialChars : List Char := "\\.+*?()|[]\x7b\x7d^$".toList

/-- Single characters, those behind a backslash among them, and the dot. -/
inductive PlainAtom : List Char → Regex → Prop where
  | literal {c : Char} : c ∉ specialChars → PlainAtom [c] (.char (.single c.toNat))
  | escaped {c : Char} : c ∈ metaChars → PlainAtom ['\\', c] (.char (.single c.toNat))
  | dot : PlainAtom ['.'] (.char (.compl (.single 0xA)))

/-- The items of a sequence with the one that begins with a character, or with that one repeated. -/
def itemsAt (found : List Item) (fuel : Nat) (c : Char) : Read (List Item) :=
  match c with
  | '(' => do
    let i ← group fuel
    return i :: found
  | '[' => do
    let c ← bracketed (2 * (← get).rest.length + 2)
    return ⟨⟨.char c.value, c.depth⟩, true⟩ :: found
  | '?' => do
    drop
    let _ ← skip? "?"
    repeatLast found 0 (some 1)
  | '*' => do
    drop
    let _ ← skip? "?"
    repeatLast found 0 none
  | '+' => do
    drop
    let _ ← skip? "?"
    repeatLast found 1 none
  | '\x7b' => do
    let (least, most) ← counts
    skipBlanks
    let _ ← skip? "?"
    repeatLast found least most
  | _ => do
    let i ← primitive
    return i :: found

section

variable {found : List Item} {n : Nat} {cs tail : List Char}

theorem bind_apply {α β : Type} (x : Read α) (f : α → Read β) (s : Source) :
    (x >>= f) s = (x s).bind fun p => f p.1 p.2 := rfl

theorem sequence_succ (found : List Item) (n : Nat) : sequence found (n + 1) =
    skipBlanks >>= fun _ => peek >>= fun c =>
      match c with
      | none => pure (concatOf found.reverse)
      | some c =>
        if c = '|' ∨ c = ')' then pure (concatOf found.reverse)
        else itemsAt found n c >>= fun found => sequence found n := by
  rw [sequence]
  apply congrArg (skipBlanks >>= ·)
  funext _
  apply congrArg (peek >>= ·)
  funext c
  cases c with
  | none => rfl
  | some c =>
    unfold itemsAt
    simp only
    split <;> simp_all

theorem sequence_of_itemsAt {c : Char} {found' : List Item} {s : Source} (hc : c ≠ '|' ∧ c ≠ ')')
    (h : itemsAt found n c { rest := c :: cs } = some (found', s)) :
    sequence found (n + 1) { rest := c :: cs } = sequence found' n s := by
  rw [sequence_succ]
  have hblanks : skipBlanks { rest := c :: cs } = some ((), { rest := c :: cs }) := rfl
  have hpeek : peek { rest := c :: cs } = some (some c, { rest := c :: cs }) := rfl
  rw [bind_apply, hblanks, Option.bind_some, bind_apply, hpeek, Option.bind_some]
  simp only
  rw [if_neg (not_or.mpr hc), bind_apply, h]
  rfl

/-- No text that begins with a question mark is skipped where none is next. -/
theorem skip?_of_head (text : String) (htext : text.toList.head? = some '?') (hcs : cs.head? ≠ some '?') :
    skip? text { rest := cs } = some (false, { rest := cs }) := by
  have hfront : text.toList.isPrefixOf cs = false := by
    obtain ⟨others, htext⟩ := List.head?_eq_some_iff.mp htext
    rw [htext]
    cases cs with
    | nil => rfl
    | cons c cs =>
      have hc : '?' ≠ c := fun h => hcs (congrArg some h.symm)
      simp [List.isPrefixOf, hc]
  change (if text.toList.isPrefixOf cs then (do drop text.length; return true : Read Bool)
    else return false) { rest := cs } = _
  rw [hfront]
  rfl

theorem sequence_mark {r : Nested Regex} {mark : Char} {least : Nat} {most : Option Nat}
    (hmark : (mark, least, most) ∈ marks) (htail : tail.head? ≠ some '?') :
    sequence (⟨r, true⟩ :: found) (n + 1) { rest := mark :: tail } =
      sequence (⟨⟨.repeated r.value least most, r.depth + 1⟩, true⟩ :: found) n { rest := tail } := by
  simp only [marks, List.mem_cons, Prod.mk.injEq, List.not_mem_nil, or_false] at hmark
  rcases hmark with ⟨rfl, rfl, rfl⟩ | ⟨rfl, rfl, rfl⟩ | ⟨rfl, rfl, rfl⟩
  all_goals
    apply sequence_of_itemsAt (by decide)
    change ((skip? "?" { rest := tail }).bind _) = _
    rw [skip?_of_head "?" rfl htail]
    rfl

theorem primitive_literal {c : Char} (hc : c ∉ specialChars) :
    primitive { rest := c :: tail } =
      some (⟨⟨.char (.single c.toNat), 0⟩, true⟩, { rest := tail }) := by
  have hne {d : Char} (hd : d ∈ specialChars) : c ≠ d := fun h => hc (h ▸ hd)
  have hget : (get : Read Source) { rest := c :: tail } = some (_, { rest := c :: tail }) := rfl
  have hnext : next { rest := c :: tail } = some (c, { rest := tail }) := rfl
  rw [primitive, bind_apply, hget, Option.bind_some, bind_apply, hnext, Option.bind_some]
  simp only
  split
  · exact absurd rfl (hne (by decide))
  · exact absurd rfl (hne (by decide))
  · exact absurd rfl (hne (by decide))
  · exact absurd rfl (hne (by decide))
  · rfl

theorem sequence_literal {c : Char} (hc : c ∉ specialChars) :
    sequence found (n + 1) { rest := c :: tail } =
      sequence (⟨⟨.char (.single c.toNat), 0⟩, true⟩ :: found) n { rest := tail } := by
  have hne {d : Char} (hd : d ∈ specialChars) : c ≠ d := fun h => hc (h ▸ hd)
  apply sequence_of_itemsAt ⟨hne (by decide), hne (by decide)⟩
  unfold itemsAt
  split
  iterate 6 exact absurd rfl (hne (by decide))
  rw [bind_apply, primitive_literal hc]
  rfl

theorem escape_mark {c : Char} (hc : c ∈ metaChars) :
    escape { rest := c :: tail } = some (.literal c false, { rest := tail }) := by
  have hletters : metaChars.all (fun d => !(d == 'x' || d == 'u' || d == 'U') && !(d == 'p' || d == 'P') &&
      !(['d', 's', 'w', 'D', 'S', 'W'].contains d)) = true := by decide
  have hletter := List.all_eq_true.mp hletters c hc
  simp only [Bool.and_eq_true, Bool.not_eq_true'] at hletter
  obtain ⟨⟨hhex, hproperty⟩, hclass⟩ := hletter
  have hpeek : peek { rest := c :: tail } = some (some c, { rest := c :: tail }) := rfl
  have hget : (get : Read Source) { rest := c :: tail } = some (_, { rest := c :: tail }) := rfl
  rw [escape, bind_apply, hpeek, Option.bind_some]
  simp only
  rw [bind_apply, hget, Option.bind_some]
  simp only [hhex, hproperty, hclass, Bool.false_eq_true, if_false]
  rw [bind_apply, if_pos]
  · rfl
  · simp [hc]

theorem sequence_escaped {c : Char} (hc : c ∈ metaChars) :
    sequence found (n + 1) { rest := '\\' :: c :: tail } =
      sequence (⟨⟨.char (.single c.toNat), 0⟩, true⟩ :: found) n { rest := tail } := by
  apply sequence_of_itemsAt (by decide)
  change ((escape { rest := c :: tail }).bind _).bind _ = _
  rw [escape_mark hc]
  rfl

theorem sequence_group {i : Item} {s : Source} (h : group n { rest := '(' :: cs } = some (i, s)) :
    sequence found (n + 1) { rest := '(' :: cs } = sequence (i :: found) n s := by
  apply sequence_of_itemsAt (by decide)
  change (group n { rest := '(' :: cs }).bind _ = _
  rw [h]
  rfl

theorem group_plain {r : Nested Regex} {tail : List Char}
    (h : alternatives [] n { rest := cs } = some (r, { rest := ')' :: tail })) :
    group (n + 1) { rest := '(' :: '?' :: ':' :: cs } =
      some (⟨⟨r.value, r.depth + 1⟩, true⟩, { rest := tail }) := by
  rw [group]
  change ((alternatives [] n { rest := cs }).bind _) = _
  rw [h]
  rfl

theorem group_capture {r : Nested Regex} {tail : List Char} (hcs : cs.head? ≠ some '?')
    (h : alternatives [] n { rest := cs } = some (r, { rest := ')' :: tail })) :
    group (n + 1) { rest := '(' :: cs } =
      some (⟨⟨r.value, r.depth + 1⟩, true⟩, { rest := tail }) := by
  have hskip (text : String) (htext : text.toList.head? = some '?') :
      skip? text { rest := cs } = some (false, { rest := cs }) := skip?_of_head text htext hcs
  have hnamed : (skip? "?P<" <||> skip? "?<") { rest := cs } = some (false, { rest := cs }) := by
    change ((skip? "?P<") { rest := cs }).bind _ = _
    rw [hskip _ rfl]
    exact hskip _ rfl
  rw [group]
  change (skip? "?=" { rest := cs }).bind _ = _
  simp only [bind_apply, hskip "?=" rfl, hskip "?!" rfl, hskip "?<=" rfl, hskip "?<!" rfl, hskip "?" rfl,
    hnamed, Option.bind_some, Bool.or_false, Bool.false_eq_true, if_false, h]
  rfl

end

/-- An item that was read from `length` characters, and what it was written as. -/
structure StandsFor (part : Nested Regex) (length : Nat) (r : Regex) : Prop where
  spans : ∀ text, part.value.Spans text = r.Spans text
  depth : part.depth < 2 * length
  cost : part.value.cost ≤ 512 * length

/-- The text is read as one item and left behind, in front of what cannot belong to it. -/
def ReadAsItem (behind : List Char → Prop) (cs : List Char) (r : Regex) : Prop :=
  ∃ part steps, StandsFor part cs.length r ∧ steps ≤ cs.length ∧
    ∀ found n tail, behind tail → 2 * cs.length < n + steps →
      sequence found (n + steps) { rest := cs ++ tail } =
        sequence (⟨part, true⟩ :: found) n { rest := tail }

def AtEnd (tail : List Char) : Prop := tail = [] ∨ ∃ others, tail = '|' :: others ∨ tail = ')' :: others

/-- The items of a sequence in one expression, however many there are. -/
def concatAll (parts : List (Nested Regex)) : Regex := (parts.map (·.value)).foldr .concat .empty

def ReadAsSequence (cs : List Char) (r : Regex) : Prop :=
  ∃ parts : List (Nested Regex), (∀ text, (concatAll parts).Spans text = r.Spans text) ∧
    (∀ part ∈ parts, part.depth < 2 * cs.length) ∧ (concatAll parts).cost ≤ 512 * cs.length + 32 ∧
    ∀ found n tail, AtEnd tail → 2 * cs.length < n → sequence found n { rest := cs ++ tail } =
      some (concatOf (found.reverse ++ parts.map (⟨·, true⟩)), { rest := tail })

/-- What branches cost together, with what it takes to choose between them. -/
def branchCost (parts : List (Nested Regex)) : Nat := parts.foldr (fun p cost => p.value.cost + 32 + cost) 0

/-- The branches of an expression in one, however many there are. -/
def ReadAsAlternatives (cs : List Char) (r : Regex) : Prop :=
  ∃ part parts, (∀ text i j, r.Spans text i j ↔ ∃ p ∈ part :: parts, p.value.Spans text i j) ∧
    (∀ p ∈ part :: parts, p.depth ≤ 2 * cs.length) ∧
    branchCost (part :: parts) ≤ 512 * cs.length + 64 ∧
    ∀ found n tail, (tail = [] ∨ ∃ others, tail = ')' :: others) → 2 * cs.length + 1 < n →
      alternatives found n { rest := cs ++ tail } =
        some (alternationOf (found.reverse ++ part :: parts), { rest := tail })

def ReadAs : Level → List Char → Regex → Prop
  | .atom => ReadAsItem fun _ => True
  | .item => ReadAsItem fun tail => tail.head? ≠ some '?'
  | .sequence => ReadAsSequence
  | .alternatives => ReadAsAlternatives

section

variable {cs ds : List Char} {r s : Regex} {level : Level}

theorem head?_append_ne {c : Char} (h : cs.head? ≠ some c) (hne : cs ≠ []) : (cs ++ ds).head? ≠ some c := by
  cases cs with
  | nil => exact absurd rfl hne
  | cons d cs => exact h

/-- No text begins like a question mark behind a repetition, and an item has characters. -/
theorem head?_ne_of_written (h : Written PlainAtom level cs r) :
    cs.head? ≠ some '?' ∧ (level = .atom ∨ level = .item → cs ≠ []) := by
  induction h with
  | atom h =>
    cases h with
    | literal hc =>
      refine ⟨fun h => hc ?_, fun _ => List.cons_ne_nil _ _⟩
      rw [Option.some.inj h]
      decide
    | escaped hc => exact ⟨(nomatch ·), fun _ => List.cons_ne_nil _ _⟩
    | dot => exact ⟨by decide, fun _ => List.cons_ne_nil _ _⟩
  | @group opening cs r hopening _ _ =>
    simp only [openings, List.mem_cons, List.not_mem_nil, or_false] at hopening
    rcases hopening with rfl | rfl
    · exact ⟨by simp, fun _ => List.cons_ne_nil _ _⟩
    · exact ⟨by simp, fun _ => List.cons_ne_nil _ _⟩
  | textStart => exact ⟨by decide, fun _ => List.cons_ne_nil _ _⟩
  | textEnd => exact ⟨by decide, fun _ => List.cons_ne_nil _ _⟩
  | single _ ih => exact ⟨ih.1, fun _ => ih.2 (.inl rfl)⟩
  | repeated _ _ ih =>
    exact ⟨head?_append_ne ih.1 (ih.2 (.inl rfl)), fun _ => List.append_ne_nil_of_right_ne_nil _ (by simp)⟩
  | nil => exact ⟨by decide, fun h => by simp at h⟩
  | cons _ _ ih _ => exact ⟨head?_append_ne ih.1 (ih.2 (.inr rfl)), fun h => by simp at h⟩
  | sole _ ih => exact ⟨ih.1, fun h => by simp at h⟩
  | @or cs ds r s _ _ ih _ =>
    refine ⟨?_, fun h => by simp at h⟩
    rcases eq_or_ne cs [] with rfl | hne
    · simp
    · exact head?_append_ne ih.1 hne

theorem readAsItem_plain (h : PlainAtom cs r) : ReadAsItem (fun _ => True) cs r := by
  have hsingle (k : Nat) : (char (.single k)).cost ≤ 512 := by
    simp only [Regex.cost, CharClass.single, CharClass.rangeCounts, List.countP_singleton]
    split <;> split <;> decide
  have hpart {cs : List Char} {r : Regex} (hcs : cs ≠ []) (hcost : r.cost ≤ 512) :
      StandsFor ⟨r, 0⟩ cs.length r := by
    have hpos := List.length_pos_iff.mpr hcs
    exact ⟨fun _ => rfl, by simp only; omega, by simp only; omega⟩
  cases h with
  | literal hc =>
    exact ⟨_, 1, hpart (by simp) (hsingle _), le_rfl, fun _ _ _ _ _ => sequence_literal hc⟩
  | escaped hc =>
    exact ⟨_, 1, hpart (by simp) (hsingle _), by simp, fun _ _ _ _ _ => sequence_escaped hc⟩
  | dot =>
    exact ⟨_, 1, hpart (by simp) (by decide), le_rfl, fun _ _ _ _ _ => sequence_of_itemsAt (by decide) rfl⟩

theorem readAsItem_end {c : Char} {a : Assertion} (hc : c ≠ '|' ∧ c ≠ ')')
    (h : ∀ found n tail, itemsAt found n c { rest := c :: tail } =
      some (⟨⟨.assertion a, 0⟩, true⟩ :: found, { rest := tail })) :
    ReadAsItem (fun tail => tail.head? ≠ some '?') [c] (.assertion a) :=
  ⟨_, 1, ⟨fun _ => rfl, Nat.zero_lt_two, by simp [Regex.cost]⟩, le_rfl,
    fun found n tail _ _ => sequence_of_itemsAt hc (h found n tail)⟩

theorem ReadAsItem.repeated {mark : Char} {least : Nat} {most : Option Nat}
    (h : ReadAsItem (fun _ => True) cs r) (hmark : (mark, least, most) ∈ marks) :
    ReadAsItem (fun tail => tail.head? ≠ some '?') (cs ++ [mark]) (.repeated r least most) := by
  obtain ⟨part, steps, hpart, hsteps, hread⟩ := h
  have hlength : (cs ++ [mark]).length = cs.length + 1 := by simp
  refine ⟨⟨.repeated part.value least most, part.depth + 1⟩, 1 + steps, ⟨fun text => ?_, ?_, ?_⟩, ?_, ?_⟩
  · funext i j
    simp only [Spans, hpart.spans]
  · have := hpart.depth
    simp only
    omega
  · have := hpart.cost
    simp only [marks, List.mem_cons, Prod.mk.injEq, List.not_mem_nil, or_false] at hmark
    rcases hmark with ⟨-, rfl, rfl⟩ | ⟨-, rfl, rfl⟩ | ⟨-, rfl, rfl⟩
    all_goals
      simp only [Regex.cost, Nat.zero_max, Nat.max_self, Nat.one_mul]
      omega
  · omega
  · intro found n tail htail hn
    rw [List.append_assoc, ← Nat.add_assoc, hread found (n + 1) _ trivial (by omega)]
    exact sequence_mark hmark htail

theorem concatOf_value (parts : List (Nested Regex)) (text : List Char) :
    (concatOf (parts.map (⟨·, true⟩))).value.Spans text = (concatAll parts).Spans text := by
  cases parts with
  | nil => rfl
  | cons part parts =>
    cases parts with
    | nil =>
      funext i j
      simp [concatOf, concatAll, Spans]
    | cons part' parts => simp [concatOf, concatAll, Function.comp_def]

theorem cost_concatOf_le (parts : List (Nested Regex)) :
    (concatOf (parts.map (⟨·, true⟩))).value.cost ≤ (concatAll parts).cost := by
  cases parts with
  | nil => exact le_rfl
  | cons part parts =>
    cases parts with
    | nil => exact Nat.le_add_right _ _
    | cons part' parts => simp [concatOf, concatAll, Function.comp_def]

theorem foldl_max_le {depths : List Nat} {a d : Nat} (ha : a ≤ d) (h : ∀ b ∈ depths, b ≤ d) :
    depths.foldl max a ≤ d := by
  induction depths generalizing a with
  | nil => exact ha
  | cons b depths ih =>
    obtain ⟨hb, hothers⟩ := List.forall_mem_cons.mp h
    exact ih (Nat.max_le.mpr ⟨ha, hb⟩) hothers

theorem depthAround_le {α : Type} {parts : List (Nested α)} {d : Nat} (h : ∀ part ∈ parts, part.depth ≤ d) :
    depthAround parts ≤ d + 1 :=
  Nat.succ_le_succ (foldl_max_le (Nat.zero_le d) (List.forall_mem_map.mpr h))

theorem depth_concatOf_le {parts : List (Nested Regex)} {d : Nat} (h : ∀ part ∈ parts, part.depth < d) :
    (concatOf (parts.map (⟨·, true⟩))).depth ≤ d := by
  cases parts with
  | nil => exact Nat.zero_le d
  | cons part parts =>
    have hpart := h part List.mem_cons_self
    cases parts with
    | nil => exact hpart.le
    | cons part' parts =>
      obtain ⟨d, rfl⟩ := Nat.exists_eq_add_one_of_ne_zero (Nat.ne_zero_of_lt hpart)
      have hmap : ((part :: part' :: parts).map (Item.mk · true)).map (·.part) = part :: part' :: parts := by
        simp [Function.comp_def]
      change depthAround (((part :: part' :: parts).map (Item.mk · true)).map (·.part)) ≤ _
      rw [hmap]
      exact depthAround_le fun p hp => Nat.le_of_lt_succ (h p hp)

theorem readAsSequence_nil : ReadAsSequence [] .empty := by
  refine ⟨[], fun _ => rfl, by simp, by simp [concatAll, Regex.cost], fun found n tail htail hn => ?_⟩
  obtain ⟨n, rfl⟩ := Nat.exists_eq_add_one.mpr hn
  rw [List.map_nil, List.append_nil, sequence_succ]
  obtain rfl | ⟨others, rfl | rfl⟩ := htail <;> rfl

theorem ReadAsItem.cons (h : ReadAsItem (fun tail => tail.head? ≠ some '?') cs r)
    (hs : ReadAsSequence ds s) (hds : ds.head? ≠ some '?') : ReadAsSequence (cs ++ ds) (.concat r s) := by
  obtain ⟨part, steps, hpart, hsteps, hread⟩ := h
  obtain ⟨parts, hspans, hdepth, hcost, hothers⟩ := hs
  refine ⟨part :: parts, fun text => ?_, ?_, ?_, fun found n tail htail hn => ?_⟩
  · funext i j
    change (concat part.value (concatAll parts)).Spans text i j = _
    simp only [Spans, hpart.spans, hspans]
  · have := hpart.depth
    rw [List.length_append]
    simp only [List.mem_cons, forall_eq_or_imp]
    refine ⟨by omega, fun p hp => ?_⟩
    have := hdepth p hp
    omega
  · change part.value.cost + (concatAll parts).cost ≤ _
    have := hpart.cost
    rw [List.length_append]
    omega
  · rw [List.length_append] at hn
    obtain ⟨n, rfl⟩ := Nat.exists_eq_add_of_le' (show steps ≤ n by omega)
    have hbehind : (ds ++ tail).head? ≠ some '?' := by
      rcases eq_or_ne ds [] with rfl | hne
      · obtain rfl | ⟨others, rfl | rfl⟩ := htail <;> simp
      · exact head?_append_ne hds hne
    rw [List.append_assoc, hread found n _ hbehind (by omega), hothers _ n tail htail (by omega)]
    simp

theorem branchCost_cons (part : Nested Regex) (parts : List (Nested Regex)) :
    branchCost (part :: parts) = part.value.cost + 32 + branchCost parts := rfl

/-- A sequence in front of a bar or of the end of the alternatives is a branch. -/
theorem ReadAsSequence.exists_branch (h : ReadAsSequence cs r) : ∃ part : Nested Regex,
    (∀ text, part.value.Spans text = r.Spans text) ∧ part.depth ≤ 2 * cs.length ∧
      part.value.cost ≤ 512 * cs.length + 32 ∧
      ∀ n tail, AtEnd tail → 2 * cs.length < n →
        sequence [] n { rest := cs ++ tail } = some (part, { rest := tail }) := by
  obtain ⟨parts, hspans, hdepth, hcost, hread⟩ := h
  exact ⟨concatOf (parts.map (⟨·, true⟩)), fun text => (concatOf_value parts text).trans (hspans text),
    depth_concatOf_le hdepth, (cost_concatOf_le parts).trans hcost, fun n tail => hread [] n tail⟩

theorem ReadAsSequence.sole (h : ReadAsSequence cs r) : ReadAsAlternatives cs r := by
  obtain ⟨part, hspans, hdepth, hcost, hread⟩ := h.exists_branch
  refine ⟨part, [], fun text i j => ?_, ?_, ?_, fun found n tail htail hn => ?_⟩
  · simp [hspans]
  · simpa using hdepth
  · change part.value.cost + 32 ≤ _
    omega
  · obtain ⟨n, rfl⟩ := Nat.exists_eq_add_one.mpr (Nat.zero_lt_of_lt hn)
    have hend : AtEnd tail := htail.imp_right fun ⟨others, h⟩ => ⟨others, .inr h⟩
    have hskip : skip? "|" { rest := tail } = some (false, { rest := tail }) := by
      obtain rfl | ⟨others, rfl⟩ := htail <;> rfl
    rw [alternatives, bind_apply, hread n tail hend (by omega), Option.bind_some, bind_apply, hskip]
    rw [← List.reverse_cons]
    rfl

theorem ReadAsSequence.or (h : ReadAsSequence cs r) (hs : ReadAsAlternatives ds s) :
    ReadAsAlternatives (cs ++ '|' :: ds) (.alt r s) := by
  obtain ⟨part, hspans, hdepth, hcost, hread⟩ := h.exists_branch
  obtain ⟨part', parts, hspans', hdepth', hcost', hread'⟩ := hs
  have hlength : (cs ++ '|' :: ds).length = cs.length + ds.length + 1 := by simp; omega
  refine ⟨part, part' :: parts, fun text i j => ?_, ?_, ?_, fun found n tail htail hn => ?_⟩
  · simp only [Spans, hspans', ← hspans, List.mem_cons, exists_eq_or_imp]
  · intro p hp
    rcases List.mem_cons.mp hp with rfl | hp
    · omega
    · have := hdepth' p hp
      omega
  · rw [branchCost_cons]
    omega
  · obtain ⟨n, rfl⟩ := Nat.exists_eq_add_one.mpr (Nat.zero_lt_of_lt hn)
    rw [List.append_assoc, List.cons_append, alternatives, bind_apply,
      hread n _ (.inr ⟨_, .inl rfl⟩) (by omega)]
    change alternatives (part :: found) n { rest := ds ++ tail } = _
    rw [hread' (part :: found) n tail htail (by omega), List.reverse_cons, List.append_assoc]
    rfl

theorem foldl_alt_spans (parts : List (Nested Regex)) (r : Regex) (text : List Char) (i j : Nat) :
    (parts.foldl (fun a b => .alt a b.value) r).Spans text i j ↔
      r.Spans text i j ∨ ∃ p ∈ parts, p.value.Spans text i j := by
  induction parts generalizing r with
  | nil => simp
  | cons part parts ih => simp only [List.foldl_cons, ih, Spans, or_assoc, List.mem_cons, exists_eq_or_imp]

theorem cost_foldl_alt (parts : List (Nested Regex)) (r : Regex) :
    (parts.foldl (fun a b => .alt a b.value) r).cost = r.cost + branchCost parts := by
  induction parts generalizing r with
  | nil => rfl
  | cons part parts ih =>
    rw [List.foldl_cons, ih, Regex.cost, branchCost_cons]
    omega

/-- Alternatives in front of a closing parenthesis or at the end of the text are one expression. -/
theorem ReadAsAlternatives.exists_whole (h : ReadAsAlternatives cs r) : ∃ part : Nested Regex,
    (∀ text, part.value.Spans text = r.Spans text) ∧ part.depth ≤ 2 * cs.length + 1 ∧
      part.value.cost ≤ 512 * cs.length + 32 ∧
      ∀ n tail, (tail = [] ∨ ∃ others, tail = ')' :: others) → 2 * cs.length + 1 < n →
        alternatives [] n { rest := cs ++ tail } = some (part, { rest := tail }) := by
  obtain ⟨part, parts, hspans, hdepth, hcost, hread⟩ := h
  have hvalue : (alternationOf (part :: parts)).value =
      parts.foldl (fun a b => .alt a b.value) part.value := by
    cases parts <;> rfl
  refine ⟨alternationOf (part :: parts), fun text => ?_, ?_, ?_, fun n tail => hread [] n tail⟩
  · funext i j
    simp only [hvalue, hspans, foldl_alt_spans, List.mem_cons, exists_eq_or_imp]
  · cases parts with
    | nil => exact (hdepth part List.mem_cons_self).trans (Nat.le_succ _)
    | cons part' parts => exact depthAround_le hdepth
  · rw [hvalue, cost_foldl_alt]
    rw [branchCost_cons] at hcost
    omega

theorem ReadAsAlternatives.group {opening : List Char} (h : ReadAsAlternatives cs r)
    (hopening : opening ∈ openings) (hcs : cs.head? ≠ some '?') :
    ReadAsItem (fun _ => True) (opening ++ cs ++ [')']) r := by
  obtain ⟨part, hspans, hdepth, hcost, hread⟩ := h.exists_whole
  have hlength : cs.length + 2 ≤ (opening ++ cs ++ [')']).length := by
    simp only [openings, List.mem_cons, List.not_mem_nil, or_false] at hopening
    rcases hopening with rfl | rfl <;> simp
  refine ⟨⟨part.value, part.depth + 1⟩, 1, ⟨hspans, by simp only; omega, by simp only; omega⟩, by omega, ?_⟩
  intro found n tail _ hn
  obtain ⟨n, rfl⟩ := Nat.exists_eq_add_one.mpr (show 0 < n by omega)
  have hinner : alternatives [] n { rest := cs ++ ')' :: tail } = some (part, { rest := ')' :: tail }) :=
    hread n _ (.inr ⟨_, rfl⟩) (by omega)
  have hbehind : (cs ++ ')' :: tail).head? ≠ some '?' := by
    rcases eq_or_ne cs [] with rfl | hne
    · simp
    · exact head?_append_ne hcs hne
  have hgroup : Pattern.group (n + 1) { rest := opening ++ cs ++ [')'] ++ tail } =
      some (⟨⟨part.value, part.depth + 1⟩, true⟩, { rest := tail }) := by
    rw [List.append_assoc, List.append_assoc]
    simp only [openings, List.mem_cons, List.not_mem_nil, or_false] at hopening
    rcases hopening with rfl | rfl
    · exact group_capture hbehind hinner
    · exact group_plain hinner
  obtain ⟨others, ho⟩ : ∃ others, opening ++ cs ++ [')'] ++ tail = '(' :: others := by
    simp only [openings, List.mem_cons, List.not_mem_nil, or_false] at hopening
    rcases hopening with rfl | rfl <;> exact ⟨_, rfl⟩
  rw [ho] at hgroup ⊢
  exact sequence_group hgroup

theorem readAs_of_written (h : Written PlainAtom level cs r) : ReadAs level cs r := by
  induction h with
  | atom h => exact readAsItem_plain h
  | group hopening h ih => exact ih.group hopening (head?_ne_of_written h).1
  | single _ ih =>
    obtain ⟨part, steps, hpart, hsteps, hread⟩ := ih
    exact ⟨part, steps, hpart, hsteps, fun found n tail _ => hread found n tail trivial⟩
  | repeated _ hmark ih => exact ih.repeated hmark
  | textStart => exact readAsItem_end (by decide) fun _ _ _ => rfl
  | textEnd => exact readAsItem_end (by decide) fun _ _ _ => rfl
  | nil => exact readAsSequence_nil
  | cons _ hs ih ihs => exact ih.cons ihs (head?_ne_of_written hs).1
  | sole _ ih => exact ih.sole
  | or _ _ ih ihs => exact ih.or ihs

theorem parse?_eq {text : String} {part : Nested Regex} {s : Source}
    (h : alternatives [] (4 * text.toList.length + 8) { rest := text.toList } = some (part, s)) :
    Regex.parse? text = if s.rest.isEmpty && part.depth ≤ Regex.depthLimit &&
      part.value.cost ≤ Regex.costLimit then some part.value else none := by
  change (alternatives [] (4 * text.toList.length + 8) { rest := text.toList }).bind _ = _
  rw [h]
  rfl

theorem exists_parse?_eq {text : String} (h : Written PlainAtom .alternatives text.toList r) :
    ∃ part : Nested Regex, (∀ text, part.value.Spans text = r.Spans text) ∧
      part.depth ≤ 2 * text.length + 1 ∧ part.value.cost ≤ 512 * text.length + 32 ∧
      Regex.parse? text = if part.depth ≤ Regex.depthLimit ∧ part.value.cost ≤ Regex.costLimit then
        some part.value else none := by
  obtain ⟨part, hspans, hdepth, hcost, hread⟩ := ReadAsAlternatives.exists_whole (readAs_of_written h)
  have hwhole := hread (4 * text.toList.length + 8) [] (.inl rfl) (by omega)
  rw [List.append_nil] at hwhole
  refine ⟨part, hspans, hdepth, hcost, ?_⟩
  simp [parse?_eq hwhole]

theorem compile_eq_ok {text : String} {accepts : String → Bool} :
    Libraries.compile text = .ok accepts ↔
      ∃ q, Regex.parse? text = some q ∧ accepts = fun name => q.findsIn name.toList := by
  simp only [Libraries.compile]
  cases Regex.parse? text with
  | none => simp
  | some q => simp [eq_comm]

/-- The library that the program runs with reads what is made of plain atoms as documented. -/
theorem readsExpressions : Libraries.ReadsExpressions PlainAtom 124 where
  accepts {text r} h hlength := by
    obtain ⟨part, -, hdepth, hcost, hparse⟩ := exists_parse?_eq h
    rw [if_pos ⟨hdepth.trans (by unfold Regex.depthLimit; omega),
      hcost.trans (by unfold Regex.costLimit; omega)⟩] at hparse
    exact ⟨_, compile_eq_ok.mpr ⟨part.value, hparse, rfl⟩⟩
  finds {text r found} h hcompiled name := by
    obtain ⟨part, hspans, -, -, hparse⟩ := exists_parse?_eq h
    obtain ⟨q, hq, rfl⟩ := compile_eq_ok.mp hcompiled
    rw [hparse, Option.ite_none_right_eq_some] at hq
    obtain ⟨-, ⟨⟩⟩ := hq
    rw [findsIn_iff, OccursIn, OccursIn, hspans]
  refuses {front r} h back found hcompiled := by
    obtain ⟨part, -, -, -, hread⟩ := ReadAsAlternatives.exists_whole (readAs_of_written h)
    obtain ⟨q, hq, -⟩ := compile_eq_ok.mp hcompiled
    have htext : (front ++ ")" ++ back).toList = front.toList ++ ')' :: back.toList := by
      simp [String.toList_append]
    have hrest := hread (4 * (front ++ ")" ++ back).toList.length + 8) (')' :: back.toList) (.inr ⟨_, rfl⟩)
      (by rw [htext, List.length_append]; omega)
    rw [← htext] at hrest
    rw [parse?_eq hrest] at hq
    cases hq

end

end CheckpointedLog.Pattern
