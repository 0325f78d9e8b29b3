import ProvCpl.StableReports

/-! # Lookups by pattern

The lookup hands the value on as a LIKE pattern. It reports an object that has a matching
property, it finds one whenever there is one, and what it can find it still finds after any calls
of any clients. -/
namespace WildcardLookup

open CplTypes ProvStore ProvServer EarlyExit LikePattern StoreHistory ApiEffects StableReports

def pattern (value : String) : List Token := tokens value.toList

def Matching (s : Store) (value : String) (r : PropertyRow) : Prop :=
  r ∈ s.objectProperties ∧ Matches (pattern value) r.value.toList

section Lookup

variable {srv : Server} {w : World} {value : String}

theorem mem_propertiesLike {s : Store} {rows : List PropertyRow} {r : PropertyRow}
    (h : propertiesLike s value = some rows) : r ∈ rows ↔ Matching s value r := by
  unfold propertiesLike at h
  split at h
  · obtain rfl := Option.some.inj h
    rw [List.mem_filter, decide_eq_true_iff]
    exact and_congr_right fun _ => likeTokens_eq_true
  · cases h

theorem propertiesLike_isSome (h : WellFormed (pattern value)) (s : Store) :
    ∃ rows, propertiesLike s value = some rows := by
  have hall : ∀ r ∈ s.objectProperties, (LikePattern.like value r.value).isSome :=
    fun r _ => likeTokens_isSome h r.value.toList
  exact ⟨_, if_pos hall⟩

/-- What is found is the first row in the order of the server. -/
theorem lookup_cases (h : Answering srv w) (value : String) :
    (propertiesLike w.store value = none ∧
      (srv.lookupObjectPropertyWildcard value w).1 = (.statementError, none)) ∨
    ∃ rows, propertiesLike w.store value = some rows ∧
      ((rows = [] ∧ (srv.lookupObjectPropertyWildcard value w).1 = (.notFound, none)) ∨
        ∃ r ∈ rows, (srv.lookupObjectPropertyWildcard value w).1 = (.ok, some r.id)) := by
  rw [Server.lookupObjectPropertyWildcard, ensureInitialized_answering h,
    Server.cplOdbcLookupObjectPropertyWildcard, query_answering h]
  cases hl : propertiesLike w.store value with
  | none => exact Or.inl ⟨rfl, rfl⟩
  | some rows =>
    dsimp only
    have hperm := srv.scan_perm w.calls rows
    cases hs : srv.scan w.calls rows with
    | nil =>
      rw [hs] at hperm
      exact Or.inr ⟨rows, rfl, Or.inl ⟨hperm.nil_eq.symm, rfl⟩⟩
    | cons r rest =>
      have hr : r ∈ rows := hperm.mem_iff.mp (hs ▸ List.mem_cons_self)
      exact Or.inr ⟨rows, rfl, Or.inr ⟨r, hr, rfl⟩⟩

theorem lookup_sound (h : Answering srv w) {id : Option ℕ}
    (hok : (srv.lookupObjectPropertyWildcard value w).1 = (.ok, id)) :
    ∃ r, Matching w.store value r ∧ id = some r.id := by
  rcases lookup_cases h value with ⟨-, hout⟩ | ⟨rows, hl, ⟨-, hout⟩ | ⟨r, hr, hout⟩⟩
  · rw [hout] at hok
    cases hok
  · rw [hout] at hok
    cases hok
  · rw [hout] at hok
    exact ⟨r, (mem_propertiesLike hl).mp hr, (congrArg Prod.snd hok).symm⟩

/-- Some object is found exactly when a property matches. -/
theorem lookup_complete (h : Answering srv w) (hp : WellFormed (pattern value)) :
    ((∃ r, Matching w.store value r) ∧ ∃ id,
      (srv.lookupObjectPropertyWildcard value w).1 = (.ok, some id)) ∨
    ((∀ r, ¬ Matching w.store value r) ∧
      (srv.lookupObjectPropertyWildcard value w).1 = (.notFound, none)) := by
  obtain ⟨found, hfound⟩ := propertiesLike_isSome hp w.store
  rcases lookup_cases h value with ⟨hl, -⟩ | ⟨rows, hl, ⟨hnil, hout⟩ | ⟨r, hr, hout⟩⟩
  · rw [hl] at hfound
    cases hfound
  · refine Or.inr ⟨fun r hr => ?_, hout⟩
    have hmem := (mem_propertiesLike hl).mpr hr
    rw [hnil] at hmem
    cases hmem
  · exact Or.inl ⟨⟨r, (mem_propertiesLike hl).mp hr⟩, r.id, hout⟩

end Lookup

theorem Matching.grows {s t : Store} (h : Grows s t) {value : String} {r : PropertyRow}
    (hr : Matching s value r) : Matching t value r :=
  ⟨h.objectProperties.subset hr.1, hr.2⟩

/-- What a lookup reports after a history of calls, `before` being the store that they started
from. -/
structure Looks (srv : Server) (before : Store) (w : World) (value : String) : Prop where
  sound : ∀ id, (srv.lookupObjectPropertyWildcard value w).1 = (.ok, id) →
    ∃ r, Matching w.store value r ∧ id = some r.id
  complete : WellFormed (pattern value) → (∃ r, Matching w.store value r) →
    ∃ id, (srv.lookupObjectPropertyWildcard value w).1 = (.ok, some id)
  absent : WellFormed (pattern value) → (∀ r, ¬ Matching w.store value r) →
    (srv.lookupObjectPropertyWildcard value w).1 = (.notFound, none)
  stays : WellFormed (pattern value) → (∃ r, Matching before value r) →
    ∃ id, (srv.lookupObjectPropertyWildcard value w).1 = (.ok, some id)

/-- After any calls of any clients, a server that answers finds an object for a pattern exactly
when a property matches, and a match that was there before the calls is enough. -/
theorem runCalls_looks (s : Store) (calls : List (Client × ℕ × ApiCall)) {srv : Server} {n : ℕ}
    (h : Answering srv ⟨runCalls s calls, n⟩) (value : String) :
    Looks srv s ⟨runCalls s calls, n⟩ value := by
  have hg : Grows s (runCalls s calls) := (runCalls_leads s calls).grows
  have hfound : WellFormed (pattern value) → (∃ r, Matching (runCalls s calls) value r) →
      ∃ id, (srv.lookupObjectPropertyWildcard value ⟨runCalls s calls, n⟩).1 =
        (.ok, some id) := by
    rintro hp ⟨r, hr⟩
    rcases lookup_complete h hp with hok | hnone
    · exact hok.2
    · exact absurd hr (hnone.1 r)
  constructor
  · exact fun id => lookup_sound h
  · exact hfound
  · intro hp hnot
    rcases lookup_complete h hp with hok | hnone
    · obtain ⟨r, hr⟩ := hok.1
      exact absurd hr (hnot r)
    · exact hnone.2
  · rintro hp ⟨r, hr⟩
    exact hfound hp ⟨r, hr.grows hg⟩

def taggedStore : Store :=
  { Store.oneEntity "e" 0 with
    objectProperties := [⟨1, "ex", "k", "100%", stringProperty⟩] }

theorem runCalls_looks_percent : Looks .ideal taggedStore
    ⟨runCalls taggedStore [(⟨fun _ => none, fun _ => "", .ideal, ⟨0, false⟩⟩, 4,
      .add (.addObjectStringProperty 1 (some "ex") (some "l") (some "100")))], 6⟩ "%0\\%" :=
  runCalls_looks _ _ ⟨rfl, rfl⟩ _

end WildcardLookup
