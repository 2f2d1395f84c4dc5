import SwiftBite.CoreClient.Cache
import SwiftBite.Data.Texts
import SwiftBite.Verified.Runs

/-! # How old an answer may be

Whatever the cached clients of the core service return is something that the core service has said:
to this call, or to an earlier one that stored it so recently that it has not expired.
-/

set_option autoImplicit false

namespace SwiftBite.Verified.CachedAnswers

open Store CoreClient

/-! ## Keys -/

theorem branchKey_inj {a b : ℕ} (same : branchKey a = branchKey b) : a = b :=
  Texts.toString_injective ((String.append_right_inj _).1 same)

theorem productKey_inj {branchId productId branchId' productId' : ℕ}
    (same : productKey branchId productId = productKey branchId' productId') :
    branchId = branchId' ∧ productId = productId' := by
  have texts := congrArg String.toList same
  unfold productKey at texts
  simp only [String.toList_append, List.append_assoc] at texts
  have rest := List.append_cancel_left texts
  change (toString branchId).toList ++ ':' :: (toString productId).toList =
    (toString branchId').toList ++ ':' :: (toString productId').toList at rest
  exact Texts.pair_injective rfl rest

theorem freshKey_inj {roleName roleName' : String}
    (same : freshKey roleName = freshKey roleName') : roleName = roleName' :=
  (String.append_right_inj _).1 same

theorem staleKey_inj {roleName roleName' : String}
    (same : staleKey roleName = staleKey roleName') : roleName = roleName' :=
  (String.append_right_inj _).1 same

/-- The key of no role's older copy looks like the key of this role. -/
def Plain (roleName : String) : Prop := ∀ rest, roleName ≠ "stale:" ++ rest

theorem staleKey_eq (roleName : String) : staleKey roleName = freshKey ("stale:" ++ roleName) := by
  have start : "core:rbac:perms:stale:" = "core:rbac:perms:" ++ "stale:" := by decide
  rw [freshKey, ← String.append_assoc, ← start]
  rfl

theorem freshKey_ne_staleKey {roleName : String} (plain : Plain roleName) (roleName' : String) :
    freshKey roleName ≠ staleKey roleName' := by
  rw [staleKey_eq]
  exact fun same => plain roleName' (freshKey_inj same)

/-- The sixth letters tell the kinds of keys apart. -/
def letter (key : String) : Option Char := key.toList[5]?

theorem letter_append {start rest : String} (long : 5 < start.toList.length) :
    letter (start ++ rest) = letter start := by
  rw [letter, letter, String.toList_append, List.getElem?_append_left long]

theorem letter_branchKey (branchId : ℕ) : letter (branchKey branchId) = some 'b' :=
  (letter_append (by decide)).trans (by decide)

theorem letter_productKey (branchId productId : ℕ) :
    letter (productKey branchId productId) = some 'p' := by
  have grouped : productKey branchId productId =
      "core:product:price:" ++ (toString branchId ++ (":" ++ toString productId)) := by
    unfold productKey
    simp only [String.append_assoc]
  rw [grouped]
  exact (letter_append (by decide)).trans (by decide)

theorem letter_freshKey (roleName : String) : letter (freshKey roleName) = some 'r' :=
  (letter_append (by decide)).trans (by decide)

theorem letter_staleKey (roleName : String) : letter (staleKey roleName) = some 'r' :=
  (letter_append (by decide)).trans (by decide)

theorem letter_rejectOrdersKey (branchId : ℕ) : letter (rejectOrdersKey branchId) = some 'h' :=
  (letter_append (by decide)).trans (by decide)

/-! ## What the cache is made of -/

/-- A fact is kept as this value at this key, for so many milliseconds. -/
inductive Keeps : Fact → String → CacheValue → ℕ → Prop
  | branch (branchId : ℕ) (branch : CoreBranch) :
      Keeps (.branch branchId branch) (branchKey branchId) (.branch branch) 60000
  | product (branchId : ℕ) (product : CoreBranchProduct) :
      Keeps (.product branchId product) (productKey branchId product.productId)
        (.product product) 30000
  | fresh {roleName : String} (plain : Plain roleName) (permissions : List String) :
    Keeps (.permissions roleName permissions) (freshKey roleName) (.permissions permissions) 300000
  | stale (roleName : String) (permissions : List String) :
    Keeps (.permissions roleName permissions) (staleKey roleName) (.permissions permissions) 3600000

section

variable {fact : Fact} {key : String} {value : CacheValue} {ttl : ℕ}

theorem keeps_branch (keeps : Keeps fact key value ttl) {branchId : ℕ}
    (same : key = branchKey branchId) :
    ∃ branch, fact = .branch branchId branch ∧ value = .branch branch ∧ ttl = 60000 := by
  have isLetter := letter_branchKey branchId
  rw [← same] at isLetter
  cases keeps with
  | branch branchId' branch =>
    cases branchKey_inj same
    exact ⟨branch, rfl, rfl, rfl⟩
  | product branchId' product =>
    exact absurd (isLetter.symm.trans (letter_productKey _ _)) (by decide)
  | fresh => exact absurd (isLetter.symm.trans (letter_freshKey _)) (by decide)
  | stale => exact absurd (isLetter.symm.trans (letter_staleKey _)) (by decide)

theorem keeps_product (keeps : Keeps fact key value ttl) {branchId productId : ℕ}
    (same : key = productKey branchId productId) :
    ∃ product, fact = .product branchId product ∧ value = .product product ∧
    product.productId = productId ∧ ttl = 30000 := by
  have isLetter := letter_productKey branchId productId
  rw [← same] at isLetter
  cases keeps with
  | branch => exact absurd (isLetter.symm.trans (letter_branchKey _)) (by decide)
  | product branchId' product =>
    obtain ⟨rfl, rfl⟩ := productKey_inj same
    exact ⟨product, rfl, rfl, rfl, rfl⟩
  | fresh => exact absurd (isLetter.symm.trans (letter_freshKey _)) (by decide)
  | stale => exact absurd (isLetter.symm.trans (letter_staleKey _)) (by decide)

theorem keeps_fresh (keeps : Keeps fact key value ttl) {roleName : String} (plain : Plain roleName)
    (same : key = freshKey roleName) :
    ∃ permissions, fact = .permissions roleName permissions ∧ value = .permissions permissions ∧
    ttl = 300000 := by
  have isLetter := letter_freshKey roleName
  rw [← same] at isLetter
  cases keeps with
  | branch => exact absurd (isLetter.symm.trans (letter_branchKey _)) (by decide)
  | product => exact absurd (isLetter.symm.trans (letter_productKey _ _)) (by decide)
  | fresh _ permissions =>
    cases freshKey_inj same
    exact ⟨permissions, rfl, rfl, rfl⟩
  | stale => exact absurd same.symm (freshKey_ne_staleKey plain _)

theorem keeps_stale (keeps : Keeps fact key value ttl) {roleName : String}
    (same : key = staleKey roleName) :
    ∃ permissions, fact = .permissions roleName permissions ∧ value = .permissions permissions ∧
    ttl = 3600000 := by
  have isLetter := letter_staleKey roleName
  rw [← same] at isLetter
  cases keeps with
  | branch => exact absurd (isLetter.symm.trans (letter_branchKey _)) (by decide)
  | product => exact absurd (isLetter.symm.trans (letter_productKey _ _)) (by decide)
  | fresh plain => exact absurd same (freshKey_ne_staleKey plain _)
  | stale _ permissions =>
    cases staleKey_inj same
    exact ⟨permissions, rfl, rfl, rfl⟩

/-- A value at a key stands for one fact. -/
theorem keeps_unique {fact' : Fact} {ttl' : ℕ} (keeps : Keeps fact key value ttl)
    (keeps' : Keeps fact' key value ttl') : fact = fact' := by
  cases keeps with
  | branch branchId branch =>
    obtain ⟨_, rfl, isValue, _⟩ := keeps_branch keeps' rfl
    cases isValue
    rfl
  | product branchId product =>
    obtain ⟨_, rfl, isValue, _, _⟩ := keeps_product keeps' rfl
    cases isValue
    rfl
  | fresh plain permissions =>
    obtain ⟨_, rfl, isValue, _⟩ := keeps_fresh keeps' plain rfl
    cases isValue
    rfl
  | stale roleName permissions =>
    obtain ⟨_, rfl, isValue, _⟩ := keeps_stale keeps' rfl
    cases isValue
    rfl

theorem unflagged_of_keeps (keeps : Keeps fact key value ttl) (branchId : ℕ) :
    key ≠ rejectOrdersKey branchId := by
  rintro rfl
  have isLetter := letter_rejectOrdersKey branchId
  generalize rejectOrdersKey branchId = key at keeps isLetter
  cases keeps with
  | branch => exact absurd (isLetter.symm.trans (letter_branchKey _)) (by decide)
  | product => exact absurd (isLetter.symm.trans (letter_productKey _ _)) (by decide)
  | fresh => exact absurd (isLetter.symm.trans (letter_freshKey _)) (by decide)
  | stale => exact absurd (isLetter.symm.trans (letter_staleKey _)) (by decide)

end

/-! ## The invariant -/

/-- The core service that there may be has said so. -/
def Spoken (may : CoreService → Prop) : Fact → Prop
  | .branch branchId branch => ∃ core, may core ∧ core.branch branchId = .ok branch
  | .product branchId product =>
    ∃ core productIds products, may core ∧ core.products branchId productIds = .ok products ∧
      product ∈ products
  | .permissions roleName permissions =>
    ∃ core, may core ∧ core.permissions roleName = .ok permissions
  | .noPermissions roleName => ∃ core err, may core ∧ core.permissions roleName = .error err

/-- A moment from which runs are looked at: what had been said by then, and keys at which nothing
was left; and the core services that there may be. -/
structure Moment where
  may : CoreService → Prop
  record : List (ℕ × Fact)
  emptied : String → Prop
  unflagged : ∀ branchId, ¬ emptied (rejectOrdersKey branchId)

/-- The fact has been said after the moment. -/
def Anew (record : List (ℕ × Fact)) (x : World) (said : ℕ) (fact : Fact) : Prop :=
  ∃ later, x.told = later ++ record ∧ (said, fact) ∈ later

/-- What was stored had been said before. -/
def Sourced (x : World) (s : Stored) : Prop :=
  (∃ branchId, s.key = rejectOrdersKey branchId) ∨ ∃ fact said, (said, fact) ∈ x.told ∧
  said ≤ s.time ∧ Keeps fact s.key s.value s.ttl

structure Coherent (m : Moment) (x : World) : Prop where
  entries : ∀ key entry, x.redis key = some entry →
    ∃ time ttl, ⟨time, key, entry.value, ttl⟩ ∈ x.stored ∧ entry.expiresAt = time + ttl
  stored : ∀ s ∈ x.stored, s.time ≤ x.now ∧ Sourced x s
  told : ∀ fact ∈ x.told, fact.1 ≤ x.now ∧ Spoken m.may fact.2
  core : m.may x.core
  record : m.record <:+ x.told
  /-- Where nothing was left, only what has been said since is kept. -/
  emptied : ∀ key entry, m.emptied key → x.redis key = some entry →
    ∃ fact said ttl, Anew m.record x said fact ∧ Keeps fact key entry.value ttl

/-- The clock goes on, and nothing is taken off the record. -/
structure Later (x x' : World) : Prop where
  now : x.now ≤ x'.now
  told : x.told <:+ x'.told
  stored : x.stored <:+ x'.stored

theorem Later.refl (x : World) : Later x x := ⟨le_rfl, List.suffix_refl _, List.suffix_refl _⟩

theorem Later.trans {x x' x'' : World} (first : Later x x') (second : Later x' x'') : Later x x'' :=
  ⟨first.now.trans second.now, first.told.trans second.told, first.stored.trans second.stored⟩

def growth (m : Moment) : Growth World := ⟨Coherent m, Later, Later.refl, Later.trans⟩

section

variable {m : Moment} {x x' : World} {key : String} {value : CacheValue} {said : ℕ} {fact : Fact}

theorem Anew.later {record : List (ℕ × Fact)} (later : Later x x')
    (anew : Anew record x said fact) : Anew record x' said fact := by
  obtain ⟨since, told, member⟩ := anew
  obtain ⟨more, told'⟩ := later.told
  exact ⟨more ++ since, by rw [← told', told, List.append_assoc], List.mem_append_right _ member⟩

theorem Anew.told {record : List (ℕ × Fact)} (anew : Anew record x said fact) :
    (said, fact) ∈ x.told := by
  obtain ⟨since, told, member⟩ := anew
  rw [told]
  exact List.mem_append_left _ member

theorem Sourced.later (later : Later x x') {s : Stored} (sourced : Sourced x s) : Sourced x' s := by
  rcases sourced with flag | ⟨fact, said, told, before, keeps⟩
  · exact .inl flag
  · exact .inr ⟨fact, said, later.told.subset told, before, keeps⟩

theorem later_hear (facts : List Fact) : Later x (x.hear facts) :=
  ⟨le_rfl, List.suffix_append _ _, List.suffix_refl _⟩

theorem later_store (ttl : ℕ) : Later x (x.store key value ttl) :=
  ⟨le_rfl, List.suffix_refl _, List.suffix_cons _ _⟩

theorem later_remove : Later x (x.remove key) := ⟨le_rfl, List.suffix_refl _, List.suffix_refl _⟩

/-- What the core service says is said anew. -/
theorem Coherent.anew (ok : Coherent m x) {facts : List Fact} (member : fact ∈ facts) :
    Anew m.record (x.hear facts) x.now fact := by
  obtain ⟨since, told⟩ := ok.record
  refine ⟨facts.map (fun fact => (x.now, fact)) ++ since, ?_,
    List.mem_append_left _ (List.mem_map_of_mem member)⟩
  rw [List.append_assoc, told]
  rfl

/-- The state may change in other ways: what holds of the entries and the record stays true. -/
theorem Coherent.moved (ok : Coherent m x) (later : Later x x') (redis : x'.redis = x.redis)
    (stored : x'.stored = x.stored) (told : ∀ fact ∈ x'.told, fact.1 ≤ x'.now ∧ Spoken m.may fact.2)
    (core : m.may x'.core) : Coherent m x' where
  entries := by
    intro key entry found
    rw [redis] at found
    rw [stored]
    exact ok.entries key entry found
  stored := by
    intro s member
    rw [stored] at member
    exact ⟨(ok.stored s member).1.trans later.now, (ok.stored s member).2.later later⟩
  told := told
  core := core
  record := ok.record.trans later.told
  emptied := by
    intro key entry isEmptied found
    rw [redis] at found
    obtain ⟨fact, said, ttl, anew, keeps⟩ := ok.emptied key entry isEmptied found
    exact ⟨fact, said, ttl, anew.later later, keeps⟩

theorem Coherent.hear (ok : Coherent m x) {facts : List Fact}
    (spoken : ∀ fact ∈ facts, Spoken m.may fact) : Coherent m (x.hear facts) := by
  refine ok.moved (later_hear facts) rfl rfl (fun fact member => ?_) ok.core
  rcases List.mem_append.1 member with new | old
  · obtain ⟨_, among, rfl⟩ := List.mem_map.1 new
    exact ⟨le_rfl, spoken _ among⟩
  · exact ok.told fact old

theorem Coherent.wait (ok : Coherent m x) (duration : ℕ) :
    Coherent m { x with now := x.now + duration } :=
  ok.moved ⟨Nat.le_add_right _ _, List.suffix_refl _, List.suffix_refl _⟩ rfl rfl
    (fun fact member =>
    ⟨(ok.told fact member).1.trans (Nat.le_add_right _ _), (ok.told fact member).2⟩) ok.core

theorem Coherent.coreChanges (ok : Coherent m x) {core : CoreService} (may : m.may core) :
    Coherent m { x with core := core } :=
  ok.moved ⟨le_rfl, List.suffix_refl _, List.suffix_refl _⟩ rfl rfl ok.told may

theorem Coherent.remove (ok : Coherent m x) : Coherent m (x.remove key) where
  entries := by
    intro key' entry found
    change Function.update x.redis key none key' = some entry at found
    by_cases same : key' = key
    · rw [same, Function.update_self] at found
      cases found
    · rw [Function.update_of_ne same] at found
      exact ok.entries key' entry found
  stored := ok.stored
  told := ok.told
  core := ok.core
  record := ok.record
  emptied := by
    intro key' entry isEmptied found
    change Function.update x.redis key none key' = some entry at found
    by_cases same : key' = key
    · rw [same, Function.update_self] at found
      cases found
    · rw [Function.update_of_ne same] at found
      exact ok.emptied key' entry isEmptied found

theorem Coherent.store (ok : Coherent m x) {ttl : ℕ} (sourced : Sourced x ⟨x.now, key, value, ttl⟩)
    (anew : m.emptied key →
      ∃ fact said ttl', Anew m.record x said fact ∧ Keeps fact key value ttl') :
    Coherent m (x.store key value ttl) where
  entries := by
    intro key' entry found
    change Function.update x.redis key (some ⟨value, x.now + ttl⟩) key' = some entry at found
    by_cases same : key' = key
    · rw [same, Function.update_self] at found
      cases found
      rw [same]
      exact ⟨x.now, ttl, List.mem_cons_self, rfl⟩
    · rw [Function.update_of_ne same] at found
      obtain ⟨time, ttl', stored, expires⟩ := ok.entries key' entry found
      exact ⟨time, ttl', List.mem_cons_of_mem _ stored, expires⟩
  stored := by
    intro s member
    rcases List.mem_cons.1 member with rfl | old
    · exact ⟨le_rfl, sourced.later (later_store ttl)⟩
    · exact ⟨(ok.stored s old).1, (ok.stored s old).2.later (later_store ttl)⟩
  told := ok.told
  core := ok.core
  record := ok.record
  emptied := by
    intro key' entry isEmptied found
    change Function.update x.redis key (some ⟨value, x.now + ttl⟩) key' = some entry at found
    by_cases same : key' = key
    · rw [same, Function.update_self] at found
      cases found
      rw [same] at isEmptied ⊢
      exact anew isEmptied
    · rw [Function.update_of_ne same] at found
      exact ok.emptied key' entry isEmptied found

end

/-! ## Answers -/

/-- The fact was said after a time, or stored so shortly before it that it had not expired yet. -/
def Recent (x : World) (began : ℕ) (key : String) (value : CacheValue) (ttl : ℕ)
    (fact : Fact) : Prop :=
  ∃ said, (said, fact) ∈ x.told ∧
  (began ≤ said ∨ ∃ time, said ≤ time ∧ began < time + ttl ∧ ⟨time, key, value, ttl⟩ ∈ x.stored)

/-- A recent fact, said after the moment if nothing was left at its key. -/
def Answered (m : Moment) (began : ℕ) (key : String) (value : CacheValue) (ttl : ℕ) (fact : Fact)
    (x : World) : Prop :=
  Recent x began key value ttl fact ∧ (m.emptied key → ∃ said, Anew m.record x said fact)

section

variable {m : Moment} {x x' : World} {key : String} {value : CacheValue} {ttl began said : ℕ}
  {fact : Fact}

theorem Recent.later (later : Later x x') (recent : Recent x began key value ttl fact) :
    Recent x' began key value ttl fact := by
  obtain ⟨said, told, how⟩ := recent
  refine ⟨said, later.told.subset told, how.imp_right ?_⟩
  rintro ⟨time, before, unexpired, stored⟩
  exact ⟨time, before, unexpired, later.stored.subset stored⟩

theorem Answered.later (later : Later x x') (answered : Answered m began key value ttl fact x) :
    Answered m began key value ttl fact x' := by
  refine ⟨answered.1.later later, fun isEmptied => ?_⟩
  obtain ⟨said, anew⟩ := answered.2 isEmptied
  exact ⟨said, anew.later later⟩

theorem Anew.answered (anew : Anew m.record x said fact) (since : began ≤ said) :
    Answered m began key value ttl fact x :=
  ⟨⟨said, anew.told, .inl since⟩, fun _ => ⟨said, anew⟩⟩

/-- What the cache has stands for a recent fact. -/
theorem Coherent.answered (ok : Coherent m x) (since : began ≤ x.now)
    (found : x.lookup key = some value) (unflagged : ∀ branchId, key ≠ rejectOrdersKey branchId) :
    ∃ fact ttl, Keeps fact key value ttl ∧ Answered m began key value ttl fact x := by
  obtain ⟨entry, there, live⟩ := Option.bind_eq_some_iff.1 found
  split at live
  next unexpired =>
    cases live
    obtain ⟨time, ttl, stored, expires⟩ := ok.entries key entry there
    obtain ⟨branchId, flagged⟩ | ⟨fact, said, told, before, keeps⟩ := (ok.stored _ stored).2
    · exact absurd flagged (unflagged branchId)
    · refine ⟨fact, ttl, keeps, ⟨said, told, .inr ⟨time, before, ?_, stored⟩⟩, fun isEmptied => ?_⟩
      · exact lt_of_le_of_lt since (expires ▸ unexpired)
      · obtain ⟨fact', said', ttl', anew, keeps'⟩ := ok.emptied key entry isEmptied there
        rw [keeps_unique keeps keeps']
        exact ⟨said', anew⟩
  next => cases live

/-! ## Commands -/

variable {Q : Except Err Unit → World → Prop}

theorem wp_cacheGet {Q : Except Err (Option CacheValue) → World → Prop} (ok : Coherent m x)
    (next : (growth m).Onward x (Q (.ok (x.lookup key))))
    (fails : (growth m).Onward x (Q (.error .infrastructure))) : (growth m).wp Q (cacheGet key) x :=
  Growth.wp_look ok next fails

theorem wp_cacheDel (ok : Coherent m x) (next : ∀ result, (growth m).Onward x (Q result)) :
    (growth m).wp Q (cacheDel key) x :=
  Growth.wp_act ok.remove later_remove ((next _).later later_remove) (next _)

theorem wp_orFallback {α : Type} {Q : Except Err α → World → Prop} {action : Client α}
    {fallback : α}
    (holds : (growth m).wp
      (fun | .ok a, x => Q (.ok a) x | .error _, x => Q (.ok fallback) x) action x) :
    (growth m).wp Q (orFallback action fallback) x := by
  refine Growth.wp_tryCatch (Growth.wp_mono ?_ holds)
  intro result x after
  cases result <;> exact after

/-- Storing what has been said, whether Redis does it or not. -/
theorem wp_keep {seconds : ℕ} (ok : Coherent m x) (anew : Anew m.record x said fact)
    (before : said ≤ x.now) (keeps : Keeps fact key value (seconds * 1000))
    (next : (growth m).Onward x (Q (.ok ()))) :
    (growth m).wp Q (orFallback (cacheSet key value seconds) ()) x := by
  have stores : Coherent m (x.store key value (seconds * 1000)) :=
    ok.store (.inr ⟨fact, said, anew.told, before, keeps⟩) fun _ => ⟨fact, said, _, anew, keeps⟩
  exact wp_orFallback (Growth.wp_act stores (later_store _) (next.later (later_store _)) next)

theorem wp_flag {branchId seconds : ℕ} (ok : Coherent m x)
    (next : ∀ result, (growth m).Onward x (Q result)) :
    (growth m).wp Q (cacheSet (rejectOrdersKey branchId) .flag seconds) x :=
  Growth.wp_act (ok.store (.inl ⟨branchId, rfl⟩) fun isEmptied =>
    absurd isEmptied (m.unflagged branchId)) (later_store _)
    ((next _).later (later_store _)) (next _)

theorem wp_coreClientGet {α : Type} {Q : Except Err α → World → Prop}
    {ask : CoreService → Except Err α} {facts : Except Err α → List Fact} (ok : Coherent m x)
    (spoken : ∀ fact ∈ facts (ask x.core), Spoken m.may fact)
    (next : (growth m).Onward (x.hear (facts (ask x.core))) (Q (ask x.core))) :
    (growth m).wp Q (coreClientGet ask facts) x :=
  ⟨⟨ok.hear spoken, later_hear _, next⟩, fun impossible => by cases impossible⟩

/-! ## `getBranch` -/

def AnsweredBranch (m : Moment) (branchId began : ℕ) (outcome : Except Err CoreBranch)
    (x : World) : Prop :=
  ∀ branch, outcome = .ok branch →
  Answered m began (branchKey branchId) (.branch branch) 60000 (.branch branchId branch) x

theorem wp_fetchBranch {branchId : ℕ} (ok : Coherent m x) :
    (growth m).wp (fun outcome x' => ∀ branch, outcome = .ok branch →
      Anew m.record x' x.now (.branch branchId branch)) (fetchBranch branchId) x := by
  refine wp_coreClientGet ok ?_ ?_
  · split
    next branch answered => simpa [Spoken] using ⟨x.core, ok.core, answered⟩
    next => simp
  · rintro x' later - branch answered
    rw [answered] at later
    exact (ok.anew (List.mem_singleton.2 rfl)).later later

theorem wp_getBranch {branchId : ℕ} (ok : Coherent m x) (since : began ≤ x.now) :
    (growth m).wp (AnsweredBranch m branchId began) (CoreClient.getBranch branchId) x := by
  refine Growth.wp_bind (wp_cacheGet ok ?_ fun _ _ _ branch failed => by cases failed)
  intro x₁ later₁ ok₁
  cases found : x.lookup (branchKey branchId) with
  | some cached =>
    obtain ⟨fact, ttl, keeps, answered⟩ := ok.answered since found fun flagged same => by
      have isLetter := letter_branchKey branchId
      rw [same, letter_rejectOrdersKey] at isLetter
      cases isLetter
    obtain ⟨branch, rfl, rfl, rfl⟩ := keeps_branch keeps rfl
    rintro _ ⟨⟩
    exact answered.later later₁
  | none =>
    refine Growth.wp_bind
      (Growth.wp_mono ?_ (Growth.wp_known (Later.refl x₁) ok₁ (wp_fetchBranch ok₁)))
    rintro outcome x₂ ⟨anew, ok₂, later₂⟩
    cases outcome with
    | error err => rintro _ ⟨⟩
    | ok branch =>
      have said := anew branch rfl
      refine Growth.wp_bind (wp_keep ok₂ said later₂.now (.branch _ _) ?_)
      rintro x₃ later₃ - _ ⟨⟩
      exact (said.answered (since.trans later₁.now)).later later₃

/-! ## `getPermissions` -/

/-- The core service has refused or failed to name the permissions of a role since a time. -/
def Refused (x : World) (began : ℕ) (roleName : String) : Prop :=
  ∃ said, began ≤ said ∧ (said, .noPermissions roleName) ∈ x.told

theorem Refused.later {roleName : String} (later : Later x x')
    (refused : Refused x began roleName) : Refused x' began roleName := by
  obtain ⟨said, since, told⟩ := refused
  exact ⟨said, since, later.told.subset told⟩

/-- What a call of `getPermissions` may end with: a copy of five minutes, or of an hour if the core
service fails, and an error only if it fails. -/
def Permitted (roleName : String) (began : ℕ) (outcome : Except Err (List String))
    (x : World) : Prop :=
  match outcome with
  | .ok permissions =>
    Recent x began (freshKey roleName) (.permissions permissions) 300000
        (.permissions roleName permissions) ∨
      (Refused x began roleName ∧
        Recent x began (staleKey roleName) (.permissions permissions) 3600000
          (.permissions roleName permissions))
  | .error _ => Refused x began roleName

theorem rejectOrdersKey_ne {key : String} (isRole : letter key = some 'r') (branchId : ℕ) :
    key ≠ rejectOrdersKey branchId := by
  rintro rfl
  rw [letter_rejectOrdersKey] at isRole
  cases isRole

theorem wp_getPermissionsByRole {roleName : String} (ok : Coherent m x) :
    (growth m).wp (fun
      | .ok permissions, x' => Anew m.record x' x.now (.permissions roleName permissions)
      | .error _, x' => Anew m.record x' x.now (.noPermissions roleName))
        (getPermissionsByRole roleName) x := by
  refine wp_coreClientGet ok ?_ ?_
  · split
    next permissions answered => simpa [Spoken] using ⟨x.core, ok.core, answered⟩
    next err answered => simpa [Spoken] using ⟨x.core, ok.core, err, answered⟩
  · rintro x' later -
    cases answered : x.core.permissions roleName <;> rw [answered] at later <;>
      exact (ok.anew (List.mem_singleton.2 rfl)).later later

theorem wp_fetchPermissions {roleName : String} (plain : Plain roleName) (ok : Coherent m x)
    (since : began ≤ x.now) :
    (growth m).wp (fun
      | .ok permissions, x =>
        Recent x began (freshKey roleName) (.permissions permissions) 300000
          (.permissions roleName permissions)
      | .error _, x => Refused x began roleName) (fetchPermissions roleName) x := by
  refine Growth.wp_bind
    (Growth.wp_mono ?_ (Growth.wp_known (Later.refl x) ok (wp_getPermissionsByRole ok)))
  rintro outcome x₁ ⟨anew, ok₁, later₁⟩
  cases outcome with
  | error err => exact ⟨x.now, since, anew.told⟩
  | ok permissions =>
    refine Growth.wp_bind (wp_keep ok₁ anew later₁.now (.fresh plain permissions) ?_)
    intro x₂ later₂ ok₂
    refine Growth.wp_bind (wp_keep ok₂ (anew.later later₂) (later₁.now.trans later₂.now)
      (.stale roleName permissions) ?_)
    intro x₃ later₃ _
    exact ⟨x.now, (later₂.trans later₃).told.subset anew.told, .inl since⟩

theorem wp_staleOr {roleName : String} {err : Err} (ok : Coherent m x) (since : began ≤ x.now)
    (refused : Refused x began roleName) :
    (growth m).wp (Permitted roleName began) (staleOr roleName err) x := by
  refine Growth.wp_bind (wp_orFallback (wp_cacheGet ok ?_ fun x₁ later₁ _ => refused.later later₁))
  intro x₁ later₁ ok₁
  cases found : x.lookup (staleKey roleName) with
  | none => exact refused.later later₁
  | some cached =>
    obtain ⟨fact, ttl, keeps, answered⟩ :=
      ok.answered since found (rejectOrdersKey_ne (letter_staleKey roleName))
    obtain ⟨permissions, rfl, rfl, rfl⟩ := keeps_stale keeps rfl
    exact .inr ⟨refused.later later₁, answered.1.later later₁⟩

theorem wp_getPermissions {roleName : String} (plain : Plain roleName) (ok : Coherent m x)
    (since : began ≤ x.now) :
    (growth m).wp (Permitted roleName began) (CoreClient.getPermissions roleName) x := by
  -- Without a fresh copy the core service is asked, and an older copy serves if it fails.
  have ask : (growth m).Onward x ((growth m).wp (Permitted roleName began)
      (tryCatch (fetchPermissions roleName) (staleOr roleName))) := by
    intro x₁ later₁ ok₁
    have fetched := wp_fetchPermissions plain ok₁ (since.trans later₁.now)
    refine Growth.wp_tryCatch (Growth.wp_mono ?_ (Growth.wp_known (Later.refl x₁) ok₁ fetched))
    rintro result x₂ ⟨known, ok₂, later₂⟩
    cases result with
    | ok permissions => exact .inl known
    | error err => exact wp_staleOr ok₂ (since.trans (later₁.now.trans later₂.now)) known
  refine Growth.wp_bind (wp_orFallback (wp_cacheGet ok ?_ ask))
  intro x₁ later₁ ok₁
  cases found : x.lookup (freshKey roleName) with
  | none => exact ask x₁ later₁ ok₁
  | some cached =>
    obtain ⟨fact, ttl, keeps, answered⟩ :=
      ok.answered since found (rejectOrdersKey_ne (letter_freshKey roleName))
    obtain ⟨permissions, rfl, rfl, rfl⟩ := keeps_fresh keeps plain rfl
    exact .inl (answered.1.later later₁)

/-! ## `getBranchProducts` -/

def AnsweredProduct (m : Moment) (branchId began : ℕ) (x : World)
    (product : CoreBranchProduct) : Prop :=
  Answered m began (productKey branchId product.productId) (.product product) 30000
    (.product branchId product) x

/-- The ids are divided among products that the cache has and ids that are missing, after earlier
ones. -/
structure Divided (productIds : List ℕ) (results : List CoreBranchProduct) (missingIds : List ℕ)
    (found : List CoreBranchProduct × List ℕ) : Prop where
  keptResults : results ⊆ found.1
  keptIds : missingIds ⊆ found.2
  divided : ∀ productId ∈ productIds, productId ∈ found.2 ∨ ∃ product ∈ found.1,
    product.productId = productId
  asked : ∀ product ∈ found.1, product ∈ results ∨ product.productId ∈ productIds
  missing : ∀ productId ∈ found.2, productId ∈ missingIds ∨ productId ∈ productIds

theorem wp_lookupProducts (branchId : ℕ) (productIds : List ℕ) (results : List CoreBranchProduct)
    (missingIds : List ℕ) (ok : Coherent m x) (since : began ≤ x.now)
    (answered : ∀ product ∈ results, AnsweredProduct m branchId began x product) :
    (growth m).wp (fun outcome x => ∀ found, outcome = .ok found →
        Divided productIds results missingIds found ∧ ∀ product ∈ found.1,
          AnsweredProduct m branchId began x product)
      (lookupProducts branchId productIds results missingIds) x := by
  induction productIds generalizing results missingIds x with
  | nil =>
    rintro _ ⟨⟩
    exact ⟨⟨List.Subset.refl _, List.Subset.refl _, by simp, fun _ => .inl, fun _ => .inl⟩,
      answered⟩
  | cons productId productIds inductionHypothesis =>
    refine Growth.wp_bind (wp_cacheGet ok ?_ fun _ _ _ found failed => by cases failed)
    intro x₁ later₁ ok₁
    have answered₁ : ∀ product ∈ results, AnsweredProduct m branchId began x₁ product :=
      fun product member => (answered product member).later later₁
    cases cached : x.lookup (productKey branchId productId) with
    | none =>
      refine Growth.wp_mono (fun outcome x₂ after found isFound => ?_)
        (inductionHypothesis _ _ ok₁ (since.trans later₁.now) answered₁)
      obtain ⟨divided, all⟩ := after found isFound
      refine ⟨⟨divided.keptResults, fun _ old => divided.keptIds (List.mem_append_left _ old),
        ?_, ?_, ?_⟩, all⟩
      · rintro other (_ | ⟨_, later⟩)
        · exact .inl (divided.keptIds (by simp))
        · exact divided.divided other later
      · exact fun product member =>
          (divided.asked product member).imp_right (List.mem_cons_of_mem _)
      · intro other member
        rcases divided.missing other member with known | later
        · simp only [List.mem_append, List.mem_singleton] at known
          rcases known with old | rfl
          · exact .inl old
          · exact .inr List.mem_cons_self
        · exact .inr (List.mem_cons_of_mem _ later)
    | some value =>
      obtain ⟨fact, ttl, keeps, isAnswered⟩ := ok.answered since cached fun flagged same => by
        -- The key of a product is not the key of a flag.
        have isLetter := letter_productKey branchId productId
        rw [same, letter_rejectOrdersKey] at isLetter
        cases isLetter
      obtain ⟨product, rfl, rfl, rfl, rfl⟩ := keeps_product keeps rfl
      have answered₂ : ∀ other ∈ results ++ [product],
          AnsweredProduct m branchId began x₁ other := by
        simp only [List.mem_append, List.mem_singleton]
        rintro other (old | rfl)
        · exact answered₁ other old
        · exact isAnswered.later later₁
      refine Growth.wp_mono (fun outcome x₂ after found isFound => ?_)
        (inductionHypothesis _ _ ok₁ (since.trans later₁.now) answered₂)
      obtain ⟨divided, all⟩ := after found isFound
      refine ⟨⟨fun _ old => divided.keptResults (List.mem_append_left _ old), divided.keptIds,
        ?_, ?_, ?_⟩, all⟩
      · rintro other (_ | ⟨_, later⟩)
        · exact .inr ⟨product, divided.keptResults (by simp), rfl⟩
        · exact divided.divided other later
      · intro other member
        rcases divided.asked other member with known | later
        · simp only [List.mem_append, List.mem_singleton] at known
          rcases known with old | rfl
          · exact .inl old
          · exact .inr List.mem_cons_self
        · exact .inr (List.mem_cons_of_mem _ later)
      · exact fun other member => (divided.missing other member).imp_right (List.mem_cons_of_mem _)

theorem wp_fetchProducts {branchId : ℕ} {productIds : List ℕ} (ok : Coherent m x) :
    (growth m).wp (fun outcome x' => ∀ fetched, outcome = .ok fetched →
        (∃ core, m.may core ∧ core.products branchId productIds = .ok fetched) ∧
          ∀ product ∈ fetched, Anew m.record x' x.now (.product branchId product))
            (fetchProducts branchId productIds) x := by
  refine wp_coreClientGet ok ?_ ?_
  · split
    next fetched answered =>
      intro fact member
      obtain ⟨product, among, rfl⟩ := List.mem_map.1 member
      exact ⟨x.core, productIds, fetched, ok.core, answered, among⟩
    next => simp
  · rintro x' later - fetched answered
    rw [answered] at later
    exact ⟨⟨x.core, ok.core, answered⟩,
      fun product member => (ok.anew (List.mem_map_of_mem member)).later later⟩

theorem wp_storeProducts {branchId : ℕ} (fetched : List CoreBranchProduct)
    {results : List CoreBranchProduct} (ok : Coherent m x) (before : said ≤ x.now)
    (since : began ≤ said)
    (anew : ∀ product ∈ fetched, Anew m.record x said (.product branchId product))
    (answered : ∀ product ∈ results, AnsweredProduct m branchId began x product) :
    (growth m).wp (fun outcome x => ∀ products, outcome = .ok products →
        products = results ++ fetched ∧ ∀ product ∈ products,
          AnsweredProduct m branchId began x product)
      (storeProducts branchId fetched results) x := by
  induction fetched generalizing results x with
  | nil =>
    rintro _ ⟨⟩
    exact ⟨by simp, answered⟩
  | cons product fetched inductionHypothesis =>
    obtain ⟨first, rest⟩ := List.forall_mem_cons.1 anew
    refine Growth.wp_bind (wp_keep ok first before (.product branchId product) ?_)
    intro x₁ later₁ ok₁
    have answered₁ : ∀ other ∈ results ++ [product], AnsweredProduct m branchId began x₁ other := by
      simp only [List.mem_append, List.mem_singleton]
      rintro other (old | rfl)
      · exact (answered other old).later later₁
      · exact (first.answered since).later later₁
    simpa using inductionHypothesis ok₁ (before.trans later₁.now)
      (fun other member => (rest other member).later later₁) answered₁

/-- What a call of `getBranchProducts` returns: what the cache has of the ids, and what the core
service answers when asked for the others. -/
def AnsweredProducts (m : Moment) (branchId : ℕ) (productIds : List ℕ) (began : ℕ)
    (outcome : Except Err (List CoreBranchProduct)) (x : World) : Prop :=
  ∀ products, outcome = .ok products →
  (∀ product ∈ products, AnsweredProduct m branchId began x product) ∧
    ∃ results missingIds fetched, products = results ++ fetched ∧
    Divided productIds [] [] (results, missingIds) ∧
      (missingIds = [] ∧ fetched = [] ∨ ∃ core, m.may core ∧
        core.products branchId missingIds = .ok fetched)

theorem wp_getBranchProducts {branchId : ℕ} (productIds : List ℕ) (ok : Coherent m x)
    (since : began ≤ x.now) :
    (growth m).wp (AnsweredProducts m branchId productIds began)
      (CoreClient.getBranchProducts branchId productIds) x := by
  unfold CoreClient.getBranchProducts
  split
  next empty =>
    rintro _ ⟨⟩
    exact ⟨by simp, [], [], [], rfl, ⟨by simp, by simp, by simp [empty], by simp, by simp⟩,
      .inl ⟨rfl, rfl⟩⟩
  next =>
    -- First the cache, one product at a time.
    have looked := wp_lookupProducts branchId productIds [] [] ok since fun product member =>
        absurd member List.not_mem_nil
    refine Growth.wp_bind (Growth.wp_mono ?_ (Growth.wp_known (Later.refl x) ok looked))
    rintro outcome x₁ ⟨known, ok₁, later₁⟩
    cases outcome with
    | error err => rintro _ ⟨⟩
    | ok found =>
      obtain ⟨results, missingIds⟩ := found
      obtain ⟨divided, answered⟩ := known _ rfl
      show (growth m).wp _ (if missingIds = [] then pure results
        else fetchProducts branchId missingIds >>= fun fetched =>
          storeProducts branchId fetched results) x₁
      split
      -- Nothing was missing.
      next none =>
        rintro _ ⟨⟩
        exact ⟨answered, results, missingIds, [], by simp, divided, .inl ⟨none, rfl⟩⟩
      next =>
        refine Growth.wp_bind
          (Growth.wp_mono ?_ (Growth.wp_known (Later.refl x₁) ok₁ (wp_fetchProducts ok₁)))
        rintro outcome x₂ ⟨fetches, ok₂, later₂⟩
        cases outcome with
        | error err => rintro _ ⟨⟩
        | ok fetched =>
          -- The core service has just said what is stored now.
          obtain ⟨asked, anew⟩ := fetches fetched rfl
          refine Growth.wp_mono (fun outcome x₃ after products isProducts => ?_)
            (wp_storeProducts fetched ok₂ later₂.now
            (since.trans later₁.now) anew fun product member =>
              (answered product member).later later₂)
          obtain ⟨isAll, all⟩ := after products isProducts
          exact ⟨all, results, missingIds, fetched, isAll, divided, .inr asked⟩

/-! ## All calls -/

/-- What a call may end with. -/
def Honest (m : Moment) : Task → Answer → World → Prop
  | .getBranch branchId, .branch began outcome, x => AnsweredBranch m branchId began outcome x
  | .getBranchProducts branchId productIds, .products began outcome, x =>
    AnsweredProducts m branchId productIds began outcome x
  | .getPermissions roleName, .permissions began outcome, x => Permitted roleName began outcome x
  | _, _, _ => True

/-- What is not a call of one of the three clients returns nothing. -/
def Returns (m : Moment) (task : Task) (result : Except Err Answer) (x : World) : Prop :=
  ∀ answer, result = .ok answer → Honest m task answer x

theorem wp_clocked {α : Type} {call : Client α} {P : ℕ → Except Err α → World → Prop}
    {Q : Except Err (ℕ × Except Err α) → World → Prop} (ok : Coherent m x)
    (holds : ∀ began x, Coherent m x → began ≤ x.now → (growth m).wp (P began) call x)
    (enough : ∀ began outcome x, P began outcome x → Q (.ok (began, outcome)) x) :
    (growth m).wp Q (clocked call) x := by
  refine Growth.wp_bind (Growth.wp_sure ok (Later.refl x) ?_)
  intro x₁ later₁ ok₁
  refine Growth.wp_bind
    (Growth.wp_tryCatch (Growth.wp_map (Growth.wp_mono ?_ (holds x.now x₁ ok₁ later₁.now))))
  intro outcome x₂ known
  cases outcome <;> exact enough _ _ _ known

theorem wp_deletion {key : String} {Q : Except Err Answer → World → Prop} (ok : Coherent m x)
    (any : ∀ result x, Q result x) : (growth m).wp Q ((fun _ => .nothing) <$> cacheDel key) x :=
  Growth.wp_map (wp_cacheDel ok fun _ _ _ _ => any _ _)

/-- The roles that calls ask about have plain names, and the core service stays one that there may
be. -/
def Admits (m : Moment) : Task → Prop
  | .getPermissions roleName => Plain roleName
  | .coreChanges core => m.may core
  | _ => True

theorem wp_run {task : Task} (admits : Admits m task) (ok : Coherent m x) :
    (growth m).wp (Returns m task) task.run x := by
  -- Nothing is asked of what a handler returns.
  have handled : ∀ task : Task, (∀ answer x, Honest m task answer x) →
      ∀ (result : Except Err Answer) (x : World), Returns m task result x :=
    fun _ any _ x answer _ => any answer x
  cases task with
  | getBranch branchId =>
    refine Growth.wp_map (wp_clocked ok (fun began x ok since => wp_getBranch ok since)
      fun began outcome x known => ?_)
    rintro _ ⟨⟩
    exact known
  | getBranchProducts branchId productIds =>
    refine Growth.wp_map (wp_clocked ok (fun began x ok since =>
      wp_getBranchProducts productIds ok since) fun began outcome x known => ?_)
    rintro _ ⟨⟩
    exact known
  | getPermissions roleName =>
    refine Growth.wp_map (wp_clocked ok (fun began x ok since => wp_getPermissions admits ok since)
      fun began outcome x known => ?_)
    rintro _ ⟨⟩
    exact known
  | branchUpdated branchId isActive =>
    refine Growth.wp_map (Growth.wp_bind (wp_cacheDel ok fun result x₁ _ ok₁ => ?_))
    cases result with
    | error err => exact handled (.branchUpdated branchId isActive) (fun _ _ => trivial) _ _
    | ok _ =>
      show (growth m).wp _
          (if isActive = some true then cacheDel (rejectOrdersKey branchId) else pure ()) x₁
      split
      · exact wp_cacheDel ok₁ fun _ _ _ _ =>
          handled (.branchUpdated branchId isActive) (fun _ _ => trivial) _ _
      · exact handled (.branchUpdated branchId isActive) (fun _ _ => trivial) _ _
  | branchDeactivated branchId =>
    refine Growth.wp_map (Growth.wp_bind (wp_cacheDel ok fun result x₁ _ ok₁ => ?_))
    cases result with
    | error err => exact handled (.branchDeactivated branchId) (fun _ _ => trivial) _ _
    | ok _ =>
      exact wp_flag ok₁ fun _ _ _ _ =>
        handled (.branchDeactivated branchId) (fun _ _ => trivial) _ _
  | productStockChanged branchId productId =>
    exact wp_deletion ok (handled (.productStockChanged branchId productId) fun _ _ => trivial)
  | productPriceChanged branchId productId =>
    exact wp_deletion ok (handled (.productPriceChanged branchId productId) fun _ _ => trivial)
  | restaurantSuspended restaurantId =>
    exact wp_deletion ok (handled (.restaurantSuspended restaurantId) fun _ _ => trivial)
  | wait duration =>
    exact Growth.wp_sure (ok.wait duration)
      ⟨Nat.le_add_right _ _, List.suffix_refl _, List.suffix_refl _⟩ fun _ _ _ =>
      handled (.wait duration) (fun _ _ => trivial) _ _
  | coreChanges core =>
    exact Growth.wp_sure (ok.coreChanges admits)
      ⟨le_rfl, List.suffix_refl _, List.suffix_refl _⟩ fun _ _ _ =>
      handled (.coreChanges core) (fun _ _ => trivial) _ _

/-! ## Runs -/

/-- Every call that begins is admitted. -/
def Permits (m : Moment) (_ : Calls) (e : Event Task) : Prop :=
  ∀ task, e = .spawn task → Admits m task

theorem coherent_start {now : ℕ} {core : CoreService} (fresh : m.record = []) (may : m.may core) :
    Coherent m (.start now core) where
  entries := fun _ _ found => by cases found
  stored := fun _ member => absurd member List.not_mem_nil
  told := fun _ member => absurd member List.not_mem_nil
  core := may
  record := by
    rw [fresh]
    exact List.nil_suffix
  emptied := fun _ _ _ found => by cases found

theorem ready_of_start {db : Db NoRow} {now : ℕ} {core : CoreService} {p : Calls}
    (fresh : m.record = []) (may : m.may core)
    (reached : Pool.Reach Task.run (Permits m) (Pool.quiet db (.start now core)) p) :
    (growth m).Ready (fun _ task => Returns m task) p := by
  refine (Growth.ready_of_reach ?_ ?_ (Growth.ready_quiet (coherent_start fresh may) db) reached).1
  · intro _ _ task permitted _ x ok
    exact wp_run (permitted task rfl) ok
  · rintro _ _ _ _ ⟨⟩

end

/-- The core service may answer anything. -/
def anything : Moment := ⟨fun _ => True, [], fun _ => False, fun _ => id⟩

/-- What a call may return: what the core service has said to it, or has said before it and was
stored less than the time to live before the call began. -/
def Recently : Task → Answer → World → Prop
  | .getBranch branchId, .branch began (.ok branch), x =>
    Recent x began (branchKey branchId) (.branch branch) 60000 (.branch branchId branch)
  | .getBranchProducts branchId _, .products began (.ok products), x =>
    ∀ product ∈ products, Recent x began (productKey branchId product.productId)
      (.product product) 30000 (.product branchId product)
  | .getPermissions roleName, .permissions began outcome, x => Permitted roleName began outcome x
  | _, _, _ => True

/-- In every run, whatever interleaves, fails or crashes and however the core service changes its
answers, no client returns anything older than its time to live. -/
theorem answers_are_recent {db : Db NoRow} {now : ℕ} {core : CoreService} {p : Calls}
    (reached : Pool.Reach Task.run (Permits anything) (Pool.quiet db (.start now core)) p) {i : ℕ}
    {call : Call (K := Empty) NoRow World Err Task Answer} {answer : Answer}
    (found : p.calls[i]? = some call) (ended : call.prog = .done (.ok answer)) :
    Recently call.op answer p.side := by
  have honest : Honest anything call.op answer p.side :=
    (ready_of_start rfl trivial reached).result found ended answer rfl
  generalize call.op = task at honest ⊢
  cases task with
  | getBranch branchId =>
    rcases answer with _ | ⟨began, _ | branch⟩ | _ | _
    case branch.ok => exact (honest branch rfl).1
    all_goals trivial
  | getBranchProducts branchId productIds =>
    rcases answer with _ | _ | ⟨began, _ | products⟩ | _
    case products.ok => exact fun product member => ((honest products rfl).1 product member).1
    all_goals trivial
  | getPermissions roleName =>
    cases answer with
    | permissions began outcome => exact honest
    | nothing | branch | products => trivial
  | branchUpdated | branchDeactivated | productStockChanged | productPriceChanged
  | restaurantSuspended | wait | coreChanges => trivial

/-- The ends of the calls that have ended. -/
def ends (p : Calls) (i : ℕ) : Option (Task × Answer) :=
  match p.calls[i]? with
  | some ⟨task, .done (.ok answer), _⟩ => some (task, answer)
  | _ => none

theorem call_of_ends {p : Calls} {i : ℕ} {task : Task} {answer : Answer}
    (isEnd : ends p i = some (task, answer)) :
    ∃ call, p.calls[i]? = some call ∧ call.op = task ∧ call.prog = .done (.ok answer) := by
  unfold ends at isEnd
  split at isEnd
  next found =>
    cases isEnd
    exact ⟨_, found, rfl, rfl⟩
  next => cases isEnd

def act (i : ℕ) : Event Task := .step i (.pick 0)

def listed (catalogue : ℕ → ℕ → Option CoreBranchProduct) : CoreService where
  branch _ := .ok Sample.branch
  products branchId productIds := .ok (productIds.filterMap (catalogue branchId))
  permissions _ := .ok ["orders:accept"]

def menu (_ productId : ℕ) : Option CoreBranchProduct :=
  if productId = 1 then some ⟨1, "tea", none, 500, 10, true⟩
    else if productId = 2 then some ⟨2, "coffee", none, 700, 10, true⟩ else none

def silent : CoreService :=
  ⟨fun _ => .error .infrastructure, fun _ _ => .error .infrastructure,
    fun _ => .error .infrastructure⟩

def tableless : Db NoRow := fun t => t.elim

/-- A call of `getBranch` that asks, and one that finds its answer a minute later, less a second,
while the core service fails. -/
def asking : List (Event Task) :=
  .spawn (.getBranch 7) :: List.replicate 4 (act 0) ++ [.spawn (.wait 59000), act 1,
    .spawn (.coreChanges silent), act 2, .spawn (.getBranch 7), act 3, act 3]

def unnamed : Event Task → Bool
  | .spawn (.getPermissions _) => false
  | _ => true

/-- The branch that a call asked for, and the fee it was told. -/
def feeEnd : Task × Answer → Option (ℕ × ℤ)
  | (.getBranch branchId, .branch _ (.ok branch)) => some (branchId, branch.deliveryFee)
  | _ => none

theorem branch_of_feeEnd {reply : Task × Answer} {branchId : ℕ} {fee : ℤ}
    (isEnd : feeEnd reply = some (branchId, fee)) :
    ∃ began branch, reply = (.getBranch branchId, .branch began (.ok branch)) ∧
    branch.deliveryFee = fee := by
  unfold feeEnd at isEnd
  split at isEnd
  · simp only [Option.some.injEq, Prod.mk.injEq] at isEnd
    obtain ⟨rfl, rfl⟩ := isEnd
    exact ⟨_, _, rfl, rfl⟩
  · cases isEnd

theorem permits_of_unnamed (p : Calls) (e : Event Task) (checked : unnamed e = true) :
    Permits anything p e := by
  rintro task rfl
  cases task with
  | getPermissions => cases checked
  | _ => trivial

theorem branch_is_recent :
    ∃ (p : Calls) (began : ℕ) (branch : CoreBranch),
    Pool.Reach Task.run (Permits anything) (Pool.quiet tableless (.start 1000 (listed menu))) p ∧
    p.side.now = 60000 ∧
      Recent p.side began (branchKey 7) (.branch branch) 60000 (.branch 7 branch) := by
  have run : (Pool.play Task.run (fun _ e => unnamed e) asking
      (Pool.quiet tableless (.start 1000 (listed menu)))).map
      (fun p => (p.side.now, (ends p 3).bind feeEnd)) =
      some (60000, some (7, Sample.branch.deliveryFee)) := by decide +kernel
  obtain ⟨p, played, viewed⟩ := Option.map_eq_some_iff.1 run
  simp only [Prod.mk.injEq] at viewed
  obtain ⟨now, isEnd⟩ := viewed
  obtain ⟨reply, ended, isFee⟩ := Option.bind_eq_some_iff.1 isEnd
  obtain ⟨began, branch, rfl, _⟩ := branch_of_feeEnd isFee
  obtain ⟨call, found, isCall, isDone⟩ := call_of_ends ended
  have reached := Pool.reach_of_play permits_of_unnamed played
  have recent := answers_are_recent reached found isDone
  rw [isCall] at recent
  exact ⟨p, began, branch, reached, now, recent⟩

/-- The core service answers from one catalogue, if it answers. -/
def Lists (catalogue : ℕ → ℕ → Option CoreBranchProduct) (core : CoreService) : Prop :=
  ∀ branchId productIds products, core.products branchId productIds = .ok products →
    ∀ product, product ∈ products ↔
    ∃ productId ∈ productIds, catalogue branchId productId = some product

def listing (catalogue : ℕ → ℕ → Option CoreBranchProduct) : Moment :=
  ⟨Lists catalogue, [], fun _ => False, fun _ => id⟩

/-- While the catalogue stays as it is, what `getBranchProducts` returns is what the core service
would answer to a request for all the ids, whichever of them the cache has. -/
theorem products_as_listed {catalogue : ℕ → ℕ → Option CoreBranchProduct}
    (named : ∀ branchId productId product, catalogue branchId productId = some product →
      product.productId = productId) {db : Db NoRow} {now : ℕ} {core : CoreService}
    (lists : Lists catalogue core) {p : Calls}
    (reached : Pool.Reach Task.run (Permits (listing catalogue))
      (Pool.quiet db (.start now core)) p) {i : ℕ}
    {call : Call (K := Empty) NoRow World Err Task Answer} {branchId began : ℕ}
    {productIds : List ℕ} {products : List CoreBranchProduct} (found : p.calls[i]? = some call)
    (isCall : call.op = .getBranchProducts branchId productIds)
    (ended : call.prog = .done (.ok (.products began (.ok products))))
    (product : CoreBranchProduct) :
    product ∈ products ↔ ∃ productId ∈ productIds, catalogue branchId productId = some product := by
  have ready := ready_of_start (m := listing catalogue) rfl lists reached
  have honest := ready.result found ended _ rfl
  rw [isCall] at honest
  obtain ⟨answered, results, missingIds, fetched, isAll, divided, asked⟩ := honest products rfl
  -- Whatever is returned is in the catalogue, under its own id.
  have listed : ∀ product ∈ products, catalogue branchId product.productId = some product := by
    intro product member
    obtain ⟨⟨said, told, _⟩, _⟩ := answered product member
    obtain ⟨core', ids, all, lists', isAnswer, among⟩ := (ready.ok.told _ told).2
    obtain ⟨productId, _, isListed⟩ := (lists' branchId ids all isAnswer product).1 among
    rwa [named _ _ _ isListed]
  -- What was missing has been answered from the catalogue.
  have answers : ∀ product, product ∈ fetched ↔
      ∃ productId ∈ missingIds, catalogue branchId productId = some product := by
    rcases asked with ⟨rfl, rfl⟩ | ⟨core', lists', isAnswer⟩
    · simp
    · exact lists' branchId missingIds fetched isAnswer
  constructor
  · intro member
    refine ⟨product.productId, ?_, listed product member⟩
    rw [isAll] at member
    rcases List.mem_append.1 member with old | new
    · exact (divided.asked product old).resolve_left List.not_mem_nil
    · obtain ⟨productId, isMissing, isListed⟩ := (answers product).1 new
      rw [named _ _ _ isListed]
      exact (divided.missing productId isMissing).resolve_left List.not_mem_nil
  · rintro ⟨productId, requested, isListed⟩
    rw [isAll]
    rcases divided.divided productId requested with isMissing | ⟨other, old, same⟩
    · exact List.mem_append_right _ ((answers product).2 ⟨productId, isMissing, isListed⟩)
    · have isOther := listed other (isAll ▸ List.mem_append_left _ old)
      rw [same, isListed] at isOther
      cases isOther
      exact List.mem_append_left _ old

def steady : Event Task → Bool
  | .spawn (.getPermissions _) | .spawn (.coreChanges _) => false
  | _ => true

/-- A call of `getBranchProducts` for the first product, and one that asks for the second alone. -/
def ordering : List (Event Task) :=
  .spawn (.getBranchProducts 7 [1]) :: List.replicate 4 (act 0) ++
    .spawn (.getBranchProducts 7 [1, 2, 1, 3]) :: List.replicate 7 (act 1)

def productsEnd : Task × Answer → Option (ℕ × List ℕ × List ℕ)
  | (.getBranchProducts branchId productIds, .products _ (.ok products)) =>
    some (branchId, productIds, products.map CoreBranchProduct.productId)
  | _ => none

theorem products_of_productsEnd {reply : Task × Answer} {branchId : ℕ} {productIds ids : List ℕ}
    (isEnd : productsEnd reply = some (branchId, productIds, ids)) :
    ∃ began products,
      reply = (.getBranchProducts branchId productIds, .products began (.ok products)) ∧
      products.map CoreBranchProduct.productId = ids := by
  unfold productsEnd at isEnd
  split at isEnd
  · simp only [Option.some.injEq, Prod.mk.injEq] at isEnd
    obtain ⟨rfl, rfl, rfl⟩ := isEnd
    exact ⟨_, _, rfl, rfl⟩
  · cases isEnd

theorem tea_and_coffee :
    ∃ products : List CoreBranchProduct, products.map CoreBranchProduct.productId = [1, 1, 2] ∧
    ∀ product, product ∈ products ↔
    ∃ productId ∈ [1, 2, 1, 3], menu 7 productId = some product := by
  have run : (Pool.play Task.run (fun _ e => steady e) ordering
      (Pool.quiet tableless (.start 1000 (listed menu)))).bind
      (fun p => (ends p 1).bind productsEnd) = some (7, [1, 2, 1, 3], [1, 1, 2]) := by
    decide +kernel
  obtain ⟨p, played, isEnd⟩ := Option.bind_eq_some_iff.1 run
  obtain ⟨reply, ended, isProducts⟩ := Option.bind_eq_some_iff.1 isEnd
  obtain ⟨began, products, rfl, ids⟩ := products_of_productsEnd isProducts
  obtain ⟨call, found, isCall, isDone⟩ := call_of_ends ended
  have named : ∀ branchId productId product, menu branchId productId = some product →
      product.productId = productId := by
    intro branchId productId product isListed
    unfold menu at isListed
    split at isListed
    · cases isListed
      simp [*]
    · split at isListed <;> cases isListed
      simp [*]
  have lists : Lists menu (listed menu) := by
    rintro branchId productIds products ⟨⟩ product
    exact List.mem_filterMap
  have reached : Pool.Reach Task.run (Permits (listing menu))
      (Pool.quiet tableless (.start 1000 (listed menu))) p := by
    refine Pool.reach_of_play (fun q e checked => ?_) played
    rintro task rfl
    cases task with
    | getPermissions | coreChanges => cases checked
    | _ => trivial
  exact ⟨products, ids, products_as_listed named lists reached found isCall isDone⟩

end SwiftBite.Verified.CachedAnswers
