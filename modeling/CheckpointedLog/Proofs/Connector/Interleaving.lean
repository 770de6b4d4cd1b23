import CheckpointedLog.Proofs.Connector.Session

namespace CheckpointedLog.Session

variable [Libraries] {δ ω : Type}

/-- The sessions that come about from `s` when actions that are allowed are performed one after the
other, while others move the world between them as the relation `R` says. -/
inductive Interleaves (parts : Components δ ω) (R : ω → ω → Prop)
    (allowed : Session δ ω → SessionAction → Prop) (s : Session δ ω) : Session δ ω → Prop where
  | refl : Interleaves parts R allowed s s
  | acted {t : Session δ ω} {a : SessionAction} (h : Interleaves parts R allowed s t)
      (ha : allowed t a) : Interleaves parts R allowed s (t.perform parts a)
  | moved {t : Session δ ω} {w : ω} (h : Interleaves parts R allowed s t) (hw : R t.world w) :
      Interleaves parts R allowed s { t with world := w }

variable {parts : Components δ ω} {R : ω → ω → Prop}
  {allowed : Session δ ω → SessionAction → Prop} {s s' t : Session δ ω}

theorem Interleaves.performAll (h : Interleaves parts R allowed s t) {actions : List SessionAction}
    (hallowed : ∀ t, ∀ a ∈ actions, allowed t a) :
    Interleaves parts R allowed s (t.performAll parts actions) := by
  induction actions generalizing t with
  | nil => exact h
  | cons a actions ih =>
    exact ih (h.acted (hallowed t a List.mem_cons_self)) fun u x hx =>
      hallowed u x (List.mem_cons_of_mem a hx)

/-- What every allowed action and every move keeps holds of all sessions that are reached. -/
theorem Interleaves.keeps {P : Session δ ω → Prop} (h : Interleaves parts R allowed s s') (hs : P s)
    (hact : ∀ t a, allowed t a → P t → P (t.perform parts a))
    (hmove : ∀ t w, R t.world w → P t → P { t with world := w }) : P s' := by
  induction h with
  | refl => exact hs
  | acted _ ha ih => exact hact _ _ ha ih
  | moved _ hw ih => exact hmove _ _ hw ih

/-- Without an operation that restores, the configuration and the restored offsets stay. -/
theorem Interleaves.base (h : Interleaves parts R allowed s s')
    (hallowed : ∀ t a, allowed t a → a.isRestore = false) :
    s.connector.SameBase s'.connector := by
  apply h.keeps (P := fun t => s.connector.SameBase t.connector) (.refl _)
  · intro t a ha hbase
    have hsame : t.connector.SameBase (t.perform parts a).connector :=
      performAll_base parts t (List.forall_mem_singleton.mpr (hallowed t a ha))
    exact hbase.trans hsame
  · exact fun _ _ _ hbase => hbase

variable {J : ω → Prop} {I : OffsetState → FetchTrace ω → Prop} {G : ω → ω → Prop}

/-- What others do to the world does not matter, if it does not matter to the world before an opening
and to fetching after it. -/
theorem Sound.inWorld (h : s.Sound J I) {w : ω} (hfresh : J s.world → J w)
    (hmove : ∀ o t, t.run.world = s.world → I o t → I o (t.inWorld w)) :
    Sound J I { s with world := w } where
  valid := h.valid
  restorable := h.restorable
  stage := by
    rcases h.stage with u | ⟨f, o⟩
    · exact Or.inl { u with world := hfresh u.world }
    · exact Or.inr ⟨f, { o with trace := hmove _ _ rfl o.trace }⟩

theorem Sound.of_interleaves (law : FetchLaw parts J I G) (h : s.Sound J I)
    (hr : Interleaves parts R allowed s s') (hfresh : ∀ w w', R w w' → J w → J w')
    (hmove : ∀ o t w, R t.run.world w → I o t → I o (t.inWorld w)) : s'.Sound J I := by
  apply hr.keeps h
  · exact fun t a _ ht => ht.perform law a
  · intro t w hw ht
    exact ht.inWorld (hfresh _ _ hw) fun o u hu => hmove o u w (hu ▸ hw)

/-- A law allows the others to do what discovery and closing may do. -/
theorem Sound.of_moves (law : FetchLaw parts J I G) (h : s.Sound J I)
    (hr : Interleaves parts G allowed s s') : s'.Sound J I :=
  h.of_interleaves law hr (fun _ _ hw hJ => law.fresh hJ hw) fun _ _ _ hw ht => law.move ht hw

end CheckpointedLog.Session
