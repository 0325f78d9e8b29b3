import ProvCpl.PreparedQueries
import ProvCpl.StoreHistory

/-! # Looking up one prefix

All prefixes of a bundle are selected from the table that the insertion fills. The call for one
prefix waits on a semaphore that was never initialised. If it gets past it, it selects from a
table that the script does not make, so that lookup never succeeds. -/
namespace PrefixLookup

open CplTypes ProvStore ProvServer PreparedQueries StoreHistory EventTrace SqlSelect

/-- The IRI of the first addition to a bundle and prefix that the server accepts. -/
def firstIri (id : ℕ) (nsPrefix : String) : Store → List Effect → Option String
  | _, [] => none
  | s, .addPrefix r :: effects =>
    if r.id = id ∧ r.nsPrefix = nsPrefix ∧ (s.insertPrefix r).isSome then some r.iri
    else firstIri id nsPrefix (applyEffect s (.addPrefix r)) effects
  | s, e :: effects => firstIri id nsPrefix (applyEffect s e) effects

/-- After a history, the lookup returns a success and reports the entries of the full listing
that have the prefix, which is the first accepted one or nothing. -/
def LookupFilters (srv : Server) (withKey : PoolMemory) (history : List Effect) (calls id : ℕ)
    (nsPrefix : String) : Prop :=
  let w : World := ⟨runTrace applyEffect .fresh history, calls⟩
  ∃ looked listed, srv.getPrefixes withKey id (some nsPrefix) w = some looked ∧
    srv.getPrefixes withKey id none w = some listed ∧ looked.1.1.IsOk ∧
    looked.1.2 = listed.1.2.filter (fun e => e.nsPrefix = nsPrefix) ∧
    looked.1.2 = (firstIri id nsPrefix .fresh history).toList.map fun iri => ⟨nsPrefix, iri⟩

/-- The statement for one prefix is refused whenever it is run. -/
theorem runGetPrefixes_fails (srv : Server) (id : ℕ) (nsPrefix : String) (w : World) :
    ¬ (srv.list id (srv.runGetPrefixes id (some nsPrefix)) w).1.1.IsOk := by
  unfold Server.list Server.ensureInitialized
  split
  · dsimp only
    split
    · exact not_isOk_invalidArgument
    · unfold Server.runGetPrefixes
      cases hf : (srv.outcome w.calls).failure with
      | some f =>
        simp only [Server.select, Server.query, hf]
        exact f.failed
      | none =>
        have hm : (prefixesQuery id (some nsPrefix)).1.matching (database w.store)
            (prefixesQuery id (some nsPrefix)).2 = none := matching_prefixesWithKey _
        rw [select_refused _ hf hm]
        exact not_isOk_statementError
  · exact not_isOk_notInitialized

/-- On no store and with no contents of the memory is a lookup of one prefix a filter of all
prefixes: it does not return, or it fails. -/
theorem lookup_never_filters (srv : Server) (withKey : PoolMemory) (history : List Effect)
    (calls id : ℕ) (nsPrefix : String) :
    ¬ LookupFilters srv withKey history calls id nsPrefix := by
  rintro ⟨looked, -, hlooked, -, hok, -⟩
  rw [getPrefixes_returns hlooked] at hok
  exact runGetPrefixes_fails srv id nsPrefix _ hok

def onePrefix : List Effect := [.createObject "" "b" cplBundle 0, .addPrefix ⟨1, "ex", "e:"⟩]

/-- The bundle has the prefix and the listing of all reports it. Where the memory holds no
permit the lookup does not return, and where it holds one the lookup fails. -/
theorem stored_prefix_not_found :
    let w : World := ⟨runTrace applyEffect .fresh onePrefix, 0⟩
    firstIri 1 "ex" .fresh onePrefix = some "e:" ∧
    (Server.ideal.listPrefixes 1 w).1 = (.ok, [⟨"ex", "e:"⟩]) ∧
    Server.ideal.getPrefixes ⟨0, false⟩ 1 (some "ex") w = none ∧
    (Server.ideal.getPrefixes ⟨1, false⟩ 1 (some "ex") w).map Prod.fst =
      some (.statementError, []) ∧
    ¬ LookupFilters .ideal ⟨0, false⟩ onePrefix 0 1 "ex" := by
  refine ⟨by decide, by decide, rfl, by decide, ?_⟩
  rintro ⟨looked, -, hlooked, -⟩
  cases hlooked

end PrefixLookup
