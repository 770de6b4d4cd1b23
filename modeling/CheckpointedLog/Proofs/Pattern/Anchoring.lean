import CheckpointedLog.Proofs.Config.Source
import CheckpointedLog.Proofs.Discovery.Selection
import CheckpointedLog.Proofs.Except
import CheckpointedLog.Proofs.Pattern.Reading

/-!
Which topics a pattern covers, given that it is put between `^(?:` and `)$` as text. The group is closed
where it should be if the pattern is an expression, and the pattern has to match the whole name. A pattern
that closes the group itself is none, but it is accepted, and only one end of a name has to match.
-/
namespace CheckpointedLog.Topics

open Regex

section

variable {atoms : List Char → Regex → Prop} {text front back : String} {r s : Regex}

/-- The pattern with the ends around it is the expression of a whole name. -/
theorem written_anchored (h : Written atoms .alternatives text.toList r) :
    Written atoms .alternatives (anchored text).toList
      (.concat (.assertion .textStart) (.concat r (.concat (.assertion .textEnd) .empty))) := by
  have hlist : (anchored text).toList =
      ['^'] ++ ((['(', '?', ':'] ++ text.toList ++ [')']) ++ (['$'] ++ [])) := by
    simp [anchored, String.toList_append]
  rw [hlist]
  exact .sole (.cons .textStart (.cons (.single (.group (by decide) h)) (.cons .textEnd .nil)))

/-- Two expressions with the group closed between them: each is left with one of the ends. -/
theorem written_anchored_open (hfront : Written atoms .alternatives front.toList r)
    (hback : Written atoms .alternatives back.toList s) :
    Written atoms .alternatives (anchored (front ++ ")|(?:" ++ back)).toList
      (.alt (.concat (.assertion .textStart) (.concat r .empty))
        (.concat s (.concat (.assertion .textEnd) .empty))) := by
  have hlist : (anchored (front ++ ")|(?:" ++ back)).toList =
      (['^'] ++ ((['(', '?', ':'] ++ front.toList ++ [')']) ++ [])) ++ '|' ::
        ((['(', '?', ':'] ++ back.toList ++ [')']) ++ (['$'] ++ [])) := by
    simp [anchored, String.toList_append]
  rw [hlist]
  exact .or (.cons .textStart (.cons (.single (.group (by decide) hfront)) .nil))
    (.sole (.cons (.single (.group (by decide) hback)) (.cons .textEnd .nil)))

theorem length_anchored (text : String) : (anchored text).length = text.length + 6 := by
  rw [anchored, String.length_append, String.length_append]
  change 4 + text.length + 2 = _
  omega

end

variable [Libraries] {text : String}

theorem compilePattern_eq_ok {found : String → Bool} :
    (pattern text).compilePattern = .ok found ↔ Libraries.compile (anchored text) = .ok found := by
  rw [compilePattern]
  cases Libraries.compile (anchored text) with
  | error m => exact ⟨(nomatch ·), (nomatch ·)⟩
  | ok found' => exact ⟨fun h => congrArg _ (Except.ok.inj h), fun h => congrArg _ (Except.ok.inj h)⟩

theorem validateTopics_of_ok {found : String → Bool} (h : Libraries.compile (anchored text) = .ok found) :
    SourceConfig.validateTopics (.pattern text) = .ok () := by
  rw [SourceConfig.validateTopics, compilePattern, h]
  rfl

theorem validateTopics_of_error {m : String} (h : Libraries.compile (anchored text) = .error m) :
    SourceConfig.validateTopics (.pattern text) = .error (.invalidPattern m) := by
  rw [SourceConfig.validateTopics, compilePattern, h]
  rfl

theorem exists_of_validateTopics (h : SourceConfig.validateTopics (.pattern text) = .ok ()) :
    ∃ found, Libraries.compile (anchored text) = .ok found := by
  cases hcompiled : Libraries.compile (anchored text) with
  | error m =>
    rw [validateTopics_of_error hcompiled] at h
    cases h
  | ok found => exact ⟨found, rfl⟩

theorem validate_eq_invalidPattern {c : SourceConfig} (h : c.topics = .pattern text) :
    (∃ m, c.validate = .error (.invalidPattern m)) ↔
      SourceConfig.validateTopics (.pattern text) ≠ .ok () := by
  constructor
  · rintro ⟨m, hinvalid⟩ hvalid
    obtain ⟨field, message, he⟩ := SourceConfig.validate_eq_error (h ▸ hvalid) hinvalid
    cases he
  · intro hinvalid
    cases hcompiled : Libraries.compile (anchored text) with
    | error m =>
      refine ⟨m, ?_⟩
      rw [SourceConfig.validate, h, validateTopics_of_error hcompiled]
      rfl
    | ok found => exact absurd (validateTopics_of_ok hcompiled) hinvalid

theorem covers_eq {found : String → Bool} (h : Libraries.compile (anchored text) = .ok found)
    (topic : String) : (pattern text).covers topic = found topic := by
  have hmatcher : (pattern text).matcher = .ok (.expression found) := by
    rw [matcher, compilePattern_eq_ok.mpr h]
    rfl
  rw [covers, hmatcher]
  rfl

/-- A discovery selects the covered topics from those that are listed. -/
theorem exists_answers_matching {ω : Type} {client : BrokerClient ω} {d : BrokerDiscoverer} {w w' : ω}
    {ps : List Partition} (hstart : BrokerDiscoverer.start { topics := .pattern text } = (.ok (), d))
    (hdiscover : d.discover client w = (.ok ps, w')) :
    ∃ m, client.Answers (.pattern text) w m w' ∧ ∀ p, p ∈ ps ↔
      p ∈ m.partitions ∧ p.topic ∈ m.topics ∧ (pattern text).covers p.topic = true := by
  obtain ⟨htopics, hfits⟩ := BrokerDiscoverer.start_fits (fun r hr => by cases hr) hstart
  obtain ⟨-, m, hanswers, hfinds⟩ := BrokerDiscoverer.exists_answers hfits hdiscover
  rw [htopics] at hanswers hfinds
  exact ⟨m, hanswers, fun p => (hfinds p).trans and_comm⟩

/-- For a library that reads expressions as documented: a pattern that is one, with room for the group and
the ends around it, is accepted by itself and in a configuration; and what it covers, and what a discovery
selects, are exactly the names that it matches as a whole. A pattern that closes the group, with
expressions before and behind, is refused by itself. In a configuration it is accepted all the same, and it
covers every name that begins like the one or ends like the other. -/
theorem covers_whole_names {atoms : List Char → Regex → Prop} {room : Nat}
    (hreads : Libraries.ReadsExpressions atoms room) :
    (∀ text, ∀ c : SourceConfig, c.topics = .pattern text →
      ((∃ m, c.validate = .error (.invalidPattern m)) ↔
        SourceConfig.validateTopics (.pattern text) ≠ .ok ())) ∧
    (∀ text r, Written atoms .alternatives text.toList r →
      (text.length + 6 ≤ room → (∃ found, Libraries.compile text = .ok found) ∧
        SourceConfig.validateTopics (.pattern text) = .ok ()) ∧
      (SourceConfig.validateTopics (.pattern text) = .ok () →
        (∀ topic, (pattern text).covers topic = true ↔ r.Spans topic.toList 0 topic.length) ∧
        ∀ {ω : Type} (client : BrokerClient ω) (d : BrokerDiscoverer) (w w' : ω) (ps : List Partition),
          BrokerDiscoverer.start { topics := .pattern text } = (.ok (), d) →
          d.discover client w = (.ok ps, w') →
          ∃ m, client.Answers (.pattern text) w m w' ∧ ∀ p, p ∈ ps ↔
            p ∈ m.partitions ∧ p.topic ∈ m.topics ∧ r.Spans p.topic.toList 0 p.topic.length)) ∧
    ∀ front back r s, Written atoms .alternatives front.toList r →
      Written atoms .alternatives back.toList s →
      let text := front ++ ")|(?:" ++ back
      (∀ found, Libraries.compile text ≠ .ok found) ∧
      (text.length + 6 ≤ room → SourceConfig.validateTopics (.pattern text) = .ok ()) ∧
      (SourceConfig.validateTopics (.pattern text) = .ok () → ∀ topic,
        (pattern text).covers topic = true ↔ (∃ j, r.Spans topic.toList 0 j) ∨
          ∃ i ≤ topic.length, s.Spans topic.toList i topic.length) := by
  refine ⟨fun text c hc => validate_eq_invalidPattern hc, fun text r hr => ⟨fun hroom => ?_, ?_⟩, ?_⟩
  -- Between the ends and in its group, the pattern is an expression again.
  · obtain ⟨found, hfound⟩ :=
      hreads.accepts (written_anchored hr) (by rw [length_anchored]; exact hroom)
    exact ⟨hreads.accepts hr (by omega), validateTopics_of_ok hfound⟩
  · intro hvalid
    obtain ⟨found, hfound⟩ := exists_of_validateTopics hvalid
    have hcovers (topic : String) :
        (pattern text).covers topic = true ↔ r.Spans topic.toList 0 topic.length := by
      rw [covers_eq hfound, hreads.finds (written_anchored hr) hfound, ← String.length_toList]
      exact occursIn_between_ends r topic.toList
    refine ⟨hcovers, fun client d w w' ps hstart hdiscover => ?_⟩
    obtain ⟨m, hanswers, hselected⟩ := exists_answers_matching hstart hdiscover
    simp only [hcovers] at hselected
    exact ⟨m, hanswers, hselected⟩
  · intro front back r s hr hs text
    have hwritten := written_anchored_open hr hs
    refine ⟨fun found => ?_, fun hroom => ?_, fun hvalid topic => ?_⟩
    -- By itself, the text closes a group that nothing opens.
    · have htext : text = front ++ ")" ++ ("|(?:" ++ back) := by
        simp only [text, String.append_assoc]
        rfl
      rw [htext]
      exact hreads.refuses hr _ found
    · obtain ⟨found, hfound⟩ := hreads.accepts hwritten (by rw [length_anchored]; exact hroom)
      exact validateTopics_of_ok hfound
    · obtain ⟨found, hfound⟩ := exists_of_validateTopics hvalid
      rw [covers_eq hfound, hreads.finds hwritten hfound, ← String.length_toList]
      exact occursIn_open_ends r s topic.toList

end CheckpointedLog.Topics

namespace CheckpointedLog.Topics

open Pattern Regex

/-- Of two alternatives one is covered, and the text of both is not. With the group closed between two
expressions, what begins like the first one is covered. -/
theorem covers_whole_names_alternative :
    Libraries.ReadsExpressions PlainAtom 124 ∧
    (∃ r, Written PlainAtom .alternatives "a|ab".toList r ∧
      SourceConfig.validateTopics (.pattern "a|ab") = .ok () ∧
      r.Spans ['a', 'b'] 0 2 ∧ ¬r.Spans ['a', 'a', 'b'] 0 3) ∧
    SourceConfig.validateTopics (.pattern "a)|(?:b") = .ok () ∧ (pattern "a)|(?:b").covers "ax" = true := by
  have letter (c : Char) (hc : c ∉ specialChars) {cs : List Char} {r : Regex}
      (h : Written PlainAtom .sequence cs r) :
      Written PlainAtom .sequence (c :: cs) (.concat (.char (.single c.toNat)) r) :=
    .cons (.single (.atom (.literal hc))) h
  have ha : Written PlainAtom .sequence "a".toList _ := letter 'a' (by decide) .nil
  have hb : Written PlainAtom .sequence "b".toList _ := letter 'b' (by decide) .nil
  have hab : Written PlainAtom .sequence "ab".toList _ := letter 'a' (by decide) hb
  have hboth : Written PlainAtom .alternatives "a|ab".toList _ := .or ha (.sole hab)
  obtain ⟨-, hwhole, hopen⟩ := covers_whole_names readsExpressions
  obtain ⟨haccepted, hcovers⟩ := hwhole "a|ab" _ hboth
  have hvalid := (haccepted (by decide)).2
  have hnames := (hcovers hvalid).1
  obtain ⟨-, hopened, hbegins⟩ := hopen "a" "b" _ _ (.sole ha) (.sole hb)
  have hvalid' := hopened (by decide)
  refine ⟨readsExpressions, ⟨_, hboth, hvalid, (hnames "ab").mp (by decide +kernel), fun hspans => ?_⟩, hvalid',
    (hbegins hvalid' "ax").mpr (.inl ⟨1, 1, ⟨'a', rfl, by decide, rfl⟩, rfl⟩)⟩
  exact absurd ((hnames "aab").mpr hspans) (by decide +kernel)

/-- The text `a)|(?:b` is no expression, but it is accepted and covers whatever begins with an `a`; and
`(?x)a#` is one that matches `a`, but it is refused. -/
theorem pattern_escapes_group :
    ((∀ found, Libraries.compile "a)|(?:b" ≠ .ok found) ∧
      SourceConfig.validateTopics (.pattern "a)|(?:b") = .ok () ∧
      (pattern "a)|(?:b").covers "ax" = true) ∧
    (∃ found, Libraries.compile "(?x)a#" = .ok found ∧ found "a" = true) ∧
      SourceConfig.validateTopics (.pattern "(?x)a#") ≠ .ok () := by
  refine ⟨⟨fun found h => ?_, eq_ok_of_toOption (by decide +kernel), by decide +kernel⟩, ?_, fun h => ?_⟩
  · have hnone : (Libraries.compile "a)|(?:b").toOption.isSome = false := by decide +kernel
    rw [h] at hnone
    cases hnone
  · have hmatches : (Libraries.compile "(?x)a#").toOption.any (· "a") = true := by decide +kernel
    cases h : Libraries.compile "(?x)a#" with
    | error m =>
      rw [h] at hmatches
      cases hmatches
    | ok found =>
      rw [h] at hmatches
      exact ⟨found, rfl, hmatches⟩
  · have hnone : (SourceConfig.validateTopics (.pattern "(?x)a#")).toOption = none := by decide +kernel
    rw [h] at hnone
    cases hnone

end CheckpointedLog.Topics
