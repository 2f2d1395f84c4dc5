import SwiftBite.Store.Footprint

/-! # Calls around a shared state that only grows

The calls of a pool may have little to do with the database and much with a shared state whose
moves all go one way: a clock, a log, a cache whose entries are on record.  Then what a call knows
of the shared state stays true, and a call can be verified alone, whatever the others do in between
and whatever the database answers.
-/

set_option autoImplicit false

namespace SwiftBite.Store

section

variable {T : Type} {Row : T → Type} {K U : Type} [∀ t, Keyed (Row t) K U] {X ε O α β γ : Type}
  [Host X ε]

/-- What the shared state satisfies, and how it moves. -/
structure Growth (X : Type) where
  ok : X → Prop
  later : X → X → Prop
  refl : ∀ x, later x x
  trans : ∀ {x x' x''}, later x x' → later x' x'' → later x x''

namespace Growth

variable (G : Growth X)

/-- The state may have moved on. -/
def Onward (x : X) (Φ : X → Prop) : Prop := ∀ x', G.later x x' → G.ok x' → Φ x'

/-- Each action keeps the state in order, and the result meets the condition, whatever the others
do. -/
def wp (Q : Except ε β → X → Prop) : Prog (K := K) Row X ε β → X → Prop
  | .done result, x => Q result x
  | .stmt _ _ next, x => ∀ answer, G.Onward x (wp Q (next answer))
  | .side fallible run next, x =>
    (G.ok (run x).2 ∧ G.later x (run x).2 ∧ G.Onward (run x).2 (wp Q (next (run x).1))) ∧
      (fallible = true → G.Onward x (wp Q (next (.error (Host.fault X)))))
  | .begin next, x => ∀ answer, G.Onward x (wp Q (next answer))
  | .commit next, x => ∀ answer, G.Onward x (wp Q (next answer))
  | .rollback next, x => G.Onward x (wp Q next)

variable {G} {Q Q' : Except ε β → X → Prop} {x x' : X}

theorem Onward.mono {Φ Φ' : X → Prop} (weaker : ∀ x, Φ x → Φ' x)
    (onward : G.Onward x Φ) : G.Onward x Φ' :=
  fun x' later ok => weaker x' (onward x' later ok)

theorem Onward.later {Φ : X → Prop} (moved : G.later x x')
    (onward : G.Onward x Φ) : G.Onward x' Φ :=
  fun x'' later ok => onward x'' (G.trans moved later) ok

theorem Onward.now {Φ : X → Prop} (onward : G.Onward x Φ) (ok : G.ok x) : Φ x :=
  onward x (G.refl x) ok

/-! ## The combinators -/

theorem wp_mono {prog : Prog (K := K) Row X ε β} (weaker : ∀ result x, Q result x → Q' result x)
    (holds : G.wp Q prog x) : G.wp Q' prog x := by
  induction prog generalizing x with
  | done result => exact weaker result x holds
  | stmt on run next inductionHypothesis =>
    exact fun answer => (holds answer).mono fun _ => inductionHypothesis answer
  | side fallible run next inductionHypothesis =>
    exact ⟨⟨holds.1.1, holds.1.2.1, holds.1.2.2.mono fun _ => inductionHypothesis _⟩,
      fun may => (holds.2 may).mono fun _ => inductionHypothesis _⟩
  | begin next inductionHypothesis =>
    exact fun answer => (holds answer).mono fun _ => inductionHypothesis answer
  | commit next inductionHypothesis =>
    exact fun answer => (holds answer).mono fun _ => inductionHypothesis answer
  | rollback next inductionHypothesis => exact Onward.mono (fun _ => inductionHypothesis) holds

/-- At its end a program finds the state in order, and later than at its start. -/
theorem wp_known {prog : Prog (K := K) Row X ε β} {x₀ : X} (since : G.later x₀ x) (ok : G.ok x)
    (holds : G.wp Q prog x) :
    G.wp (fun result x' => Q result x' ∧ G.ok x' ∧ G.later x₀ x') prog x := by
  induction prog generalizing x with
  | done result => exact ⟨holds, ok, since⟩
  | stmt on run next inductionHypothesis =>
    exact fun answer x' later ok' =>
      inductionHypothesis answer (G.trans since later) ok' (holds answer x' later ok')
  | side fallible run next inductionHypothesis =>
    obtain ⟨⟨ok₁, later₁, onward⟩, fails⟩ := holds
    exact ⟨⟨ok₁, later₁, fun x' later ok' =>
      inductionHypothesis _ (G.trans since (G.trans later₁ later)) ok' (onward x' later ok')⟩,
      fun may x' later ok' =>
        inductionHypothesis _ (G.trans since later) ok' (fails may x' later ok')⟩
  | begin next inductionHypothesis =>
    exact fun answer x' later ok' =>
      inductionHypothesis answer (G.trans since later) ok' (holds answer x' later ok')
  | commit next inductionHypothesis =>
    exact fun answer x' later ok' =>
      inductionHypothesis answer (G.trans since later) ok' (holds answer x' later ok')
  | rollback next inductionHypothesis =>
    exact fun x' later ok' => inductionHypothesis (G.trans since later) ok' (holds x' later ok')

/-- What a program must establish for its continuation. -/
abbrev bindPost (G : Growth X) (f : β → Prog (K := K) Row X ε γ)
    (Q : Except ε γ → X → Prop) : Except ε β → X → Prop
  | .ok b, x => G.wp Q (f b) x
  | .error e, x => Q (.error e) x

theorem wp_bind {prog : Prog (K := K) Row X ε β} {f : β → Prog (K := K) Row X ε γ}
    {Q : Except ε γ → X → Prop} (holds : G.wp (G.bindPost f Q) prog x) : G.wp Q (prog >>= f) x := by
  show G.wp Q (prog.bind f) x
  induction prog generalizing x with
  | done result => cases result <;> exact holds
  | stmt on run next inductionHypothesis =>
    exact fun answer => (holds answer).mono fun _ => inductionHypothesis answer
  | side fallible run next inductionHypothesis =>
    exact ⟨⟨holds.1.1, holds.1.2.1, holds.1.2.2.mono fun _ => inductionHypothesis _⟩,
      fun may => (holds.2 may).mono fun _ => inductionHypothesis _⟩
  | begin next inductionHypothesis =>
    exact fun answer => (holds answer).mono fun _ => inductionHypothesis answer
  | commit next inductionHypothesis =>
    exact fun answer => (holds answer).mono fun _ => inductionHypothesis answer
  | rollback next inductionHypothesis => exact Onward.mono (fun _ => inductionHypothesis) holds

theorem wp_map {prog : Prog (K := K) Row X ε β} {f : β → γ} {Q : Except ε γ → X → Prop}
    (holds : G.wp (fun result x => Q (result.map f) x) prog x) : G.wp Q (f <$> prog) x := by
  refine wp_bind (wp_mono ?_ holds)
  intro result x
  cases result <;> exact id

/-- What a guarded program must establish for its handler. -/
abbrev catchPost (G : Growth X) (handler : ε → Prog (K := K) Row X ε β)
    (Q : Except ε β → X → Prop) : Except ε β → X → Prop
  | .ok b, x => Q (.ok b) x
  | .error e, x => G.wp Q (handler e) x

theorem wp_tryCatch {prog : Prog (K := K) Row X ε β} {handler : ε → Prog (K := K) Row X ε β}
    (holds : G.wp (G.catchPost handler Q) prog x) : G.wp Q (prog.tryCatch handler) x := by
  induction prog generalizing x with
  | done result => cases result <;> exact holds
  | stmt on run next inductionHypothesis =>
    exact fun answer => (holds answer).mono fun _ => inductionHypothesis answer
  | side fallible run next inductionHypothesis =>
    exact ⟨⟨holds.1.1, holds.1.2.1, holds.1.2.2.mono fun _ => inductionHypothesis _⟩,
      fun may => (holds.2 may).mono fun _ => inductionHypothesis _⟩
  | begin next inductionHypothesis =>
    exact fun answer => (holds answer).mono fun _ => inductionHypothesis answer
  | commit next inductionHypothesis =>
    exact fun answer => (holds answer).mono fun _ => inductionHypothesis answer
  | rollback next inductionHypothesis => exact Onward.mono (fun _ => inductionHypothesis) holds

theorem wp_pure {b : β} (holds : Q (.ok b) x) : G.wp Q (pure b : Prog (K := K) Row X ε β) x := holds

theorem wp_throw {e : ε} (holds : Q (.error e) x) : G.wp Q (throw e : Prog (K := K) Row X ε β) x :=
  holds

theorem wp_act {run : X → Except ε β × X} (ok : G.ok (run x).2) (moves : G.later x (run x).2)
    (next : G.Onward (run x).2 (Q (run x).1)) (fails : G.Onward x (Q (.error (Host.fault X)))) :
    G.wp Q (.act run : Prog (K := K) Row X ε β) x :=
  ⟨⟨ok, moves, next⟩, fun _ => fails⟩

/-- An action that does not move the state. -/
theorem wp_look {run : X → Except ε β} (ok : G.ok x) (next : G.Onward x (Q (run x)))
    (fails : G.Onward x (Q (.error (Host.fault X)))) :
    G.wp Q (.act fun x => (run x, x) : Prog (K := K) Row X ε β) x :=
  wp_act ok (G.refl x) next fails

theorem wp_sure {run : X → β × X} (ok : G.ok (run x).2) (moves : G.later x (run x).2)
    (next : G.Onward (run x).2 (Q (.ok (run x).1))) :
    G.wp Q (.sure run : Prog (K := K) Row X ε β) x :=
  ⟨⟨ok, moves, next⟩, fun impossible => by cases impossible⟩

/-- What is known of the state stays known, and a harmless program keeps the state in order. -/
theorem wp_harmless {b : Bounds Row K X}
    (moves : ∀ x x', G.ok x → b.moves x x' → G.ok x' ∧ G.later x x')
    {prog : Prog (K := K) Row X ε β} (harmless : prog.Harmless b) (ok : G.ok x)
    (holds : ∀ result, G.Onward x (Q result)) : G.wp Q prog x := by
  induction prog generalizing x with
  | done result => exact (holds result).now ok
  | stmt on run next inductionHypothesis =>
    exact fun answer x' later ok' =>
      inductionHypothesis answer (harmless.2 answer) ok' fun result => (holds result).later later
  | side fallible run next inductionHypothesis =>
    obtain ⟨moved, rest⟩ := harmless
    obtain ⟨ok', later⟩ := moves x _ ok (moved x)
    exact ⟨⟨ok', later, fun x'' further ok'' => inductionHypothesis _ (rest _) ok'' fun result =>
      (holds result).later (G.trans later further)⟩,
      fun _ x' further ok'' => inductionHypothesis _ (rest _) ok'' fun result =>
        (holds result).later further⟩
  | begin next inductionHypothesis =>
    exact fun answer x' later ok' => inductionHypothesis answer (harmless answer) ok' fun result =>
      (holds result).later later
  | commit next inductionHypothesis =>
    exact fun answer x' later ok' => inductionHypothesis answer (harmless answer) ok' fun result =>
      (holds result).later later
  | rollback next inductionHypothesis =>
    exact fun x' later ok' => inductionHypothesis harmless ok' fun result =>
      (holds result).later later

theorem Onward.restrict {H : Growth X} {Φ Φ' : X → Prop} (weaker : ∀ x, H.ok x → G.ok x)
    (fewer : ∀ x x', H.later x x' → G.later x x') (implies : ∀ x, H.ok x → Φ x → Φ' x)
    (onward : G.Onward x Φ) : H.Onward x Φ' :=
  fun x' later ok => implies x' ok (onward x' (fewer x x' later) (weaker x' ok))

/-- What is verified among some moves is verified among those of them that keep more, if it keeps
that itself. -/
theorem wp_restrict {H : Growth X} {b : Bounds Row K X} (weaker : ∀ x, H.ok x → G.ok x)
    (fewer : ∀ x x', H.later x x' → G.later x x')
    (keeps : ∀ x x', H.ok x → G.ok x' → G.later x x' → b.moves x x' → H.ok x' ∧ H.later x x')
    {prog : Prog (K := K) Row X ε β} (harmless : prog.Harmless b) (ok : H.ok x)
    (holds : G.wp Q prog x) : H.wp Q prog x := by
  induction prog generalizing x with
  | done result => exact holds
  | stmt on run next inductionHypothesis =>
    exact fun answer => (holds answer).restrict weaker fewer fun _ =>
      inductionHypothesis answer (harmless.2 answer)
  | side fallible run next inductionHypothesis =>
    obtain ⟨moved, rest⟩ := harmless
    obtain ⟨⟨ok₁, later₁, onward⟩, fails⟩ := holds
    obtain ⟨ok', later'⟩ := keeps x _ ok ok₁ later₁ (moved x)
    exact ⟨⟨ok', later', onward.restrict weaker fewer fun _ => inductionHypothesis _ (rest _)⟩,
      fun may => (fails may).restrict weaker fewer fun _ => inductionHypothesis _ (rest _)⟩
  | begin next inductionHypothesis =>
    exact fun answer => (holds answer).restrict weaker fewer fun _ =>
      inductionHypothesis answer (harmless answer)
  | commit next inductionHypothesis =>
    exact fun answer => (holds answer).restrict weaker fewer fun _ =>
      inductionHypothesis answer (harmless answer)
  | rollback next inductionHypothesis =>
    exact Onward.restrict weaker fewer (fun _ => inductionHypothesis harmless) holds

/-! ## One action, and runs -/

variable [DecidableEq T] [DecidableEq K] [DecidableEq U]

theorem wp_next {choice : Choice} {prog : Prog (K := K) Row X ε β} {l : Local Row K} {db : Db Row}
    {out : Outcome (K := K) Row X ε β} (ok : G.ok x) (holds : G.wp Q prog x)
    (acts : prog.next choice l db x = some out) :
    G.ok out.side ∧ G.later x out.side ∧ G.Onward out.side (G.wp Q out.prog) := by
  have still : ∀ {rest : Prog (K := K) Row X ε β}, G.Onward x (G.wp Q rest) →
      G.ok x ∧ G.later x x ∧ G.Onward x (G.wp Q rest) :=
    fun onward => ⟨ok, G.refl x, onward⟩
  cases Prog.step_of_next acts with
  | sideFails => exact still (holds.2 rfl)
  | sideActs => exact holds.1
  | rollsBack => exact still holds
  | _ => exact still (holds _)

variable (G) in
/-- The shared state is in order, and each call will end with a result that meets its condition. -/
structure Ready (post : ℕ → O → Except ε α → X → Prop) (p : Pool (K := K) Row X ε O α) : Prop where
  ok : G.ok p.side
  calls : ∀ i call, p.calls[i]? = some call → G.Onward p.side (G.wp (post i call.op) call.prog)

variable {post : ℕ → O → Except ε α → X → Prop} {code : O → Prog (K := K) Row X ε α}

theorem Ready.next {p p' : Pool (K := K) Row X ε O α} {e : Event O}
    (verified : ∀ op, e = .spawn op → ∀ x, G.ok x → G.wp (post p.calls.length op) (code op) x)
    (crash : ∀ i op x, post i op (.error (Host.fault X)) x) (ready : G.Ready post p)
    (moves : p.next code e = some p') : G.Ready post p' ∧ G.later p.side p'.side := by
  cases e with
  | spawn op =>
    cases moves
    refine ⟨⟨ready.ok, fun i call found => ?_⟩, G.refl _⟩
    rcases Pool.getElem?_spawned found with old | ⟨rfl, rfl⟩
    · exact ready.calls i call old
    · exact fun x _ ok => verified op rfl x ok
  | step i choice =>
    obtain ⟨call, out, found, acts, _, rfl⟩ := Pool.stepCall_inv moves
    obtain ⟨ok, later, onward⟩ := wp_next ready.ok ((ready.calls i call found).now ready.ok) acts
    refine ⟨⟨ok, fun j other isOther => ?_⟩, later⟩
    rcases Pool.getElem?_moved isOther with ⟨rfl, rfl⟩ | ⟨_, was⟩
    · exact onward
    · exact (ready.calls j other was).later later
  | crash i =>
    obtain ⟨call, found, _, rfl⟩ := Pool.crashCall_inv moves
    refine ⟨⟨ready.ok, fun j other isOther => ?_⟩, G.refl _⟩
    rcases Pool.getElem?_moved isOther with ⟨rfl, rfl⟩ | ⟨_, was⟩
    · exact fun x _ _ => crash _ _ x
    · exact ready.calls j other was

theorem length_next {p p' : Pool (K := K) Row X ε O α} {e : Event O}
    (moves : p.next code e = some p') : p.calls.length ≤ p'.calls.length := by
  cases e with
  | spawn op =>
    cases moves
    simp
  | step i choice =>
    obtain ⟨_, _, _, _, _, rfl⟩ := Pool.stepCall_inv moves
    simp
  | crash i =>
    obtain ⟨_, _, _, rfl⟩ := Pool.crashCall_inv moves
    simp

/-- A run of verified calls, from a state that is ready for it. -/
theorem ready_of_reach {allowed : Pool (K := K) Row X ε O α → Event O → Prop}
    {p p' : Pool (K := K) Row X ε O α}
    (verified : ∀ q i op, allowed q (.spawn op) → p.calls.length ≤ i → ∀ x, G.ok x →
      G.wp (post i op) (code op) x) (crash : ∀ i op x, post i op (.error (Host.fault X)) x)
    (ready : G.Ready post p) (reached : Pool.Reach code allowed p p') :
    G.Ready post p' ∧ G.later p.side p'.side := by
  suffices all : (G.Ready post p' ∧ G.later p.side p'.side) ∧
      p.calls.length ≤ p'.calls.length from all.1
  induction reached with
  | refl => exact ⟨⟨ready, G.refl _⟩, le_rfl⟩
  | step _ permitted moves inductionHypothesis =>
    obtain ⟨⟨before, later⟩, many⟩ := inductionHypothesis
    obtain ⟨after, further⟩ :=
      before.next (fun op same => verified _ _ op (same ▸ permitted) many) crash moves
    exact ⟨⟨after, G.trans later further⟩, many.trans (length_next moves)⟩

/-- The calls of a kind stay harmless while they run. -/
theorem harmless_of_reach {b : Bounds Row K X} (any : ∀ w, b.writes w) {concerned : O → Prop}
    (harmless : ∀ op, concerned op → (code op).Harmless b)
    {allowed : Pool (K := K) Row X ε O α → Event O → Prop} {p p' : Pool (K := K) Row X ε O α}
    (start : ∀ call ∈ p.calls, concerned call.op → call.prog.Harmless b)
    (reached : Pool.Reach code allowed p p') :
    ∀ call ∈ p'.calls, concerned call.op → call.prog.Harmless b := by
  induction reached with
  | refl => exact start
  | @step q q' e _ _ moves inductionHypothesis =>
    intro call member isConcerned
    cases e with
    | spawn op =>
      cases moves
      rcases List.mem_append.1 member with old | new
      · exact inductionHypothesis call old isConcerned
      · cases List.mem_singleton.1 new
        exact harmless op isConcerned
    | step i choice =>
      obtain ⟨was, out, found, acts, _, rfl⟩ := Pool.stepCall_inv moves
      rcases List.mem_or_eq_of_mem_set member with old | rfl
      · exact inductionHypothesis call old isConcerned
      · exact ((inductionHypothesis was (List.mem_of_getElem? found) isConcerned).next
          (fun w _ => any w) acts).1
    | crash i =>
      obtain ⟨_, _, _, rfl⟩ := Pool.crashCall_inv moves
      rcases List.mem_or_eq_of_mem_set member with old | rfl
      · exact inductionHypothesis call old isConcerned
      · trivial

omit [DecidableEq T] [DecidableEq K] [DecidableEq U] in
theorem ready_quiet {x : X} (ok : G.ok x) (db : Db Row) :
    G.Ready post (Pool.quiet db x : Pool (K := K) Row X ε O α) :=
  ⟨ok, fun _ _ none => by cases none⟩

omit [DecidableEq T] [DecidableEq K] [DecidableEq U] in
/-- A call of a ready pool that has ended meets its condition. -/
theorem Ready.result {p : Pool (K := K) Row X ε O α} (ready : G.Ready post p) {i : ℕ}
    {call : Call (K := K) Row X ε O α} {result : Except ε α} (found : p.calls[i]? = some call)
    (ended : call.prog = .done result) : post i call.op result p.side := by
  have holds := (ready.calls i call found).now ready.ok
  rw [ended] at holds
  exact holds

end Growth

end

end SwiftBite.Store
