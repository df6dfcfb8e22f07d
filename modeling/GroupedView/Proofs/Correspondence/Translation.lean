import GroupedView.Proofs.Arrangement
import GroupedView.Proofs.Connection
import GroupedView.Proofs.Correspondence.Functions

/-!
# GroupedView.Proofs.Correspondence.Translation — effects that are carried to another monad

A `Translation` takes the effects of one monad to those of another and keeps their sequence.  Then a
view may as well compute with the translated functions: to advance a display or to open one and to
translate what that comes to is the same as to translate each call (`Translation.checked_advance`,
`Translation.checked_ofSnapshot`).  In particular functions without effects come to the same in any
monad, so that a connection over such functions accepts what is accepted without any
(`Connection.run_process_eq_ok_iff`, `Connection.run_ofSnapshot_eq_ok_iff`).
-/

namespace GroupedView

/-- A map of effects that keeps their sequence. -/
structure Translation (m n : Type → Type) [Monad m] [Monad n] where
  map : {α : Type} → m α → n α
  map_pure {α : Type} (x : α) : map (pure x) = pure x
  map_bind {α β : Type} (x : m α) (f : α → m β) : map (x >>= f) = map x >>= fun a => map (f a)

namespace Translation

variable {m n : Type → Type} [Monad m] [Monad n] (T : Translation m n) {α β : Type}

/-- The translation of an effect that may end in a refusal. -/
def checked (x : Checked m α) : Checked n α := ExceptT.mk (T.map x.run)

theorem checked_pure (x : α) : T.checked (pure x) = pure x :=
  ExceptT.ext (T.map_pure _)

theorem checked_throw (e : ViewError) : T.checked (throw e : Checked m α) = throw e :=
  ExceptT.ext (T.map_pure _)

theorem checked_bind (x : Checked m α) (f : α → Checked m β) :
    T.checked (x >>= f) = T.checked x >>= fun a => T.checked (f a) := by
  refine ExceptT.ext ?_
  have hrun : (T.checked (x >>= f)).run = T.map (x.run >>= ExceptT.bindCont f) := rfl
  rw [hrun, T.map_bind, ExceptT.run_bind]
  refine bind_congr fun r => ?_
  cases r with
  | ok a => rfl
  | error e => exact T.map_pure _

variable [LawfulMonad m] [LawfulMonad n]

theorem checked_lift (x : m α) : T.checked (ExceptT.lift x) = ExceptT.lift (T.map x) := by
  refine ExceptT.ext ?_
  have hrun : (T.checked (ExceptT.lift x)).run = T.map (Except.ok <$> x) := rfl
  rw [hrun, ExceptT.run_lift, ← bind_pure_comp, ← bind_pure_comp, T.map_bind]
  exact bind_congr fun a => T.map_pure _

variable [MonadAttach m] [LawfulMonadAttach m]

/-- An effect corresponds to its translation. -/
def correspondence : Correspondence m n where
  Rel x y := T.checked x = y
  rel_pure := T.checked_pure
  rel_throw _ := T.checked_throw _
  rel_bind := by
    intro α β x y f g h hf
    -- `x` is followed by what is related for its possible answers only
    have hx : x = MonadAttach.attach x >>= fun a => pure a.1 := by
      rw [bind_pure_comp, WeaklyLawfulMonadAttach.map_attach]
    have hy : y = T.checked (MonadAttach.attach x) >>= fun a => pure a.1 := by
      rw [← h]
      conv => lhs; rw [hx]
      rw [T.checked_bind]
      exact bind_congr fun a => T.checked_pure _
    rw [hy, hx, bind_assoc, bind_assoc, T.checked_bind, ← hx]
    refine bind_congr fun a => ?_
    rw [pure_bind, pure_bind]
    exact hf a.1 a.2

variable {V S : Type} [BEq S] (a : Arrangement m V S)

theorem relates : T.correspondence.Relates a (a.mapEffects T.map) := by
  have hoptions : a.options = (a.mapEffects T.map).options := rfl
  refine Correspondence.relates_of_functions hoptions ?_ ?_ ?_
  · exact fun _ _ => T.checked_lift _
  · exact fun _ _ => T.checked_lift _
  · exact fun _ _ => T.checked_lift _

/-- The advance of a display may be translated call by call. -/
theorem checked_advance {d : Display S} (hd : d.view.WellFormed) (records : List (Transaction V))
    (mapping : Mapping) :
    T.checked (d.advance a records mapping) = d.advance (a.mapEffects T.map) records mapping :=
  (T.relates a).advance hd records mapping

/-- The opening of a display may be translated call by call. -/
theorem checked_ofSnapshot (snapshot : Snapshot V) (mapping : Mapping) :
    T.checked (Display.ofSnapshot a snapshot mapping) =
      Display.ofSnapshot (a.mapEffects T.map) snapshot mapping :=
  (T.relates a).ofSnapshot snapshot mapping

/-- Where there are no effects, they are the same in every monad. -/
def ofId (m : Type → Type) [Monad m] [LawfulMonad m] : Translation Id m where
  map x := pure x.run
  map_pure _ := rfl
  map_bind x f := by rw [pure_bind]; rfl

end Translation

/-! ## Functions without effects -/

namespace Connection

variable {V S σ : Type} [BEq S] (b : Arrangement Id V S)

/-- An idle connection over functions without effects advances its display by itself. -/
theorem run_process_carry {d : Display S} (hd : d.view.WellFormed) (records : List (Transaction V))
    (mapping : Mapping) (s : σ) :
    (process (b.carry (Script σ V)) records mapping).run (⟨d, .idle⟩, s) =
      settle (⟨d, .processing⟩, s) (d.advance b records mapping).run.run := by
  have hadvance : d.advance (b.carry (Script σ V)) records mapping =
      ExceptT.mk (pure (d.advance b records mapping).run.run) :=
    ((Translation.ofId (Script σ V)).checked_advance b hd records mapping).symm
  rw [process, run_processWith_of_idle, advanced_of_eq_pure hadvance]

/-- The functions of such a connection leave their state alone while it is opened. -/
theorem run_ofSnapshot_carry (snapshot : Snapshot V) (mapping : Mapping) (s : σ) :
    (ofSnapshot (b.carry (Script σ V)) snapshot mapping).run s =
      ((Display.ofSnapshot b snapshot mapping).run.run.map fun display => { display }, s) := by
  have hopen : Display.ofSnapshot (b.carry (Script σ V)) snapshot mapping =
      ExceptT.mk (pure (Display.ofSnapshot b snapshot mapping).run.run) :=
    ((Translation.ofId (Script σ V)).checked_ofSnapshot b snapshot mapping).symm
  rw [ofSnapshot, hopen]
  rfl

variable {b} {records : List (Transaction V)} {mapping : Mapping}

/-- An idle connection accepts transactions exactly if its display advances, and shows the outcome
then. -/
theorem run_process_eq_ok_iff {d : Display S} (hd : d.view.WellFormed) {s : σ} {l : ChangeList}
    {w : Connection S × σ} :
    (process (b.carry (Script σ V)) records mapping).run (⟨d, .idle⟩, s) = (.ok l, w) ↔
      ∃ d', d.advance b records mapping = pure (l, d') ∧ w = (⟨d', .idle⟩, s) := by
  rw [run_process_carry b hd]
  cases hadvance : (d.advance b records mapping).run.run with
  | error e =>
    refine iff_of_false nofun fun ⟨d', h, _⟩ => ?_
    have hrun : (d.advance b records mapping).run.run = .ok (l, d') := h
    rw [hadvance] at hrun
    cases hrun
  | ok r =>
    obtain ⟨l', d₁⟩ := r
    have hadvance : d.advance b records mapping = pure (l', d₁) := hadvance
    rw [hadvance]
    constructor
    · intro h
      cases h
      exact ⟨d₁, rfl, rfl⟩
    · rintro ⟨d', h, rfl⟩
      cases h
      rfl

/-- A connection is opened exactly if its display is. -/
theorem run_ofSnapshot_eq_ok_iff {snapshot : Snapshot V} {s s' : σ} {c : Connection S} :
    (ofSnapshot (b.carry (Script σ V)) snapshot mapping).run s = (.ok c, s') ↔
      ∃ d, Display.ofSnapshot b snapshot mapping = pure d ∧ c = ⟨d, .idle⟩ ∧ s' = s := by
  rw [run_ofSnapshot_carry b]
  cases hopen : (Display.ofSnapshot b snapshot mapping).run.run with
  | error e =>
    refine iff_of_false nofun fun ⟨d, h, _⟩ => ?_
    have hrun : (Display.ofSnapshot b snapshot mapping).run.run = .ok d := h
    rw [hopen] at hrun
    cases hrun
  | ok d₁ =>
    have hopen : Display.ofSnapshot b snapshot mapping = pure d₁ := hopen
    rw [hopen]
    constructor
    · intro h
      cases h
      exact ⟨d₁, rfl, rfl, rfl⟩
    · rintro ⟨d, h, rfl, rfl⟩
      cases h
      rfl

end Connection

end GroupedView
