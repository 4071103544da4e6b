import MiniLisp.Error.Basic

/-!
# Runs and actions

A run leaves behind the events that happened, in order, the number of callables built so far, and
its outcome. An action is a run that is still to happen, after some number of callables has been
built. Sequencing actions concatenates their events and stops at the first one that has no result.
-/

namespace MiniLisp

/-- What an observer of a run can see happen. -/
inductive Event
  | started (line : String)
  | parsed (value : Value)
  | built (callable : Value)
  | expanded (code : Value)
  /-- A callable of the host was called. -/
  | called (note : String)
  | failed (error : Error) (line : String)

structure Run (α : Type) where
  events : List Event := []
  /-- The number of callables built before and during the run. -/
  built : Nat
  outcome : Except Stop α

/-- A run from the number of callables built before it. -/
def Action (α : Type) : Type := Nat → Run α

namespace Action

def pure (a : α) : Action α := fun built => ⟨[], built, .ok a⟩

def bind (first : Action α) (next : α → Action β) : Action β := fun built =>
  match first built with
  | ⟨events, built, .error reason⟩ => ⟨events, built, .error reason⟩
  | ⟨events, built, .ok a⟩ =>
      let rest := next a built
      ⟨events ++ rest.events, rest.built, rest.outcome⟩

instance : Monad Action where
  pure := pure
  bind := bind

theorem bind_of_error {first : Action α} {built : Nat} {events : List Event} {after : Nat}
    {reason : Stop} (h : first built = ⟨events, after, .error reason⟩) (next : α → Action β) :
    (first >>= next) built = ⟨events, after, .error reason⟩ := by
  simp [Bind.bind, bind, h]

theorem bind_of_ok {first : Action α} {built : Nat} {events : List Event} {after : Nat} {a : α}
    (h : first built = ⟨events, after, .ok a⟩) (next : α → Action β) :
    (first >>= next) built =
      ⟨events ++ (next a after).events, (next a after).built, (next a after).outcome⟩ := by
  simp [Bind.bind, bind, h]

theorem map_id (action : Action α) : id <$> action = action := by
  funext built
  simp only [Functor.map, bind]
  rcases action built with ⟨events, after, outcome⟩
  cases outcome <;> simp [Function.comp, pure]

theorem pure_bind (a : α) (next : α → Action β) : (Pure.pure a >>= next) = next a := by
  funext built
  simp [Bind.bind, bind, Pure.pure, pure]

theorem bind_assoc (first : Action α) (second : α → Action β) (third : β → Action γ) :
    (first >>= second >>= third) = (first >>= fun a => second a >>= third) := by
  funext built
  simp only [Bind.bind, bind]
  rcases first built with ⟨events, after, outcome⟩
  cases outcome with
  | error reason => rfl
  | ok a =>
      dsimp only
      rcases second a after with ⟨events', after', outcome'⟩
      cases outcome' <;> simp

instance : LawfulMonad Action := LawfulMonad.mk' Action map_id pure_bind bind_assoc

def stop (reason : Stop) : Action α := fun built => ⟨[], built, .error reason⟩

/-- Stop with `error`, whose message is written within the limit. -/
def fail (limit : Nat) (error : Error) : Action α := stop (.ofError limit error)

def ofExcept : Except Stop α → Action α
  | .ok a => pure a
  | .error reason => stop reason

theorem stop_bind (reason : Stop) (next : α → Action β) :
    ((stop reason : Action α) >>= next) = stop reason := rfl

def emit (event : Event) : Action Unit := fun built => ⟨[event], built, .ok ()⟩

def nextSerial : Action Nat := fun built => ⟨[], built + 1, .ok built⟩

/-- Refuse what nests deeper than the limit. -/
def within (limit depth : Nat) : Action Unit :=
  if depth ≤ limit then pure () else stop .overflow

end Action

end MiniLisp
