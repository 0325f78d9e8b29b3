import ProvCpl.QualifiedName

/-! # Splitting and joining names

The splitter stops at the first colon and then at the next newline, and it takes a missing
second part for a missing prefix. It is undone by joining exactly on the names whose parts
survive both. -/
namespace NameTokens

open QualifiedName

/-- No colon, or two nonempty parts with no newline in the second. -/
def Rejoins (s : String) : Prop :=
  ':' ∉ s.toList ∨ ∃ p k : List Char, p ≠ [] ∧ k ≠ [] ∧ ':' ∉ p ∧ '\n' ∉ k ∧
    s.toList = p ++ ':' :: k

structure Joinable (nsPrefix name : String) : Prop where
  noColon : ':' ∉ nsPrefix.toList
  nonempty : name ≠ ""
  plain : nsPrefix = "" → ':' ∉ name.toList

/-- What the second `getline` reads. -/
def secondLine (k : List Char) : List Char := k.takeWhile (· ≠ '\n')

theorem secondLine_eq_iff (k : List Char) : secondLine k = k ↔ '\n' ∉ k := by
  constructor
  · intro h hm
    rw [← h] at hm
    have := List.mem_takeWhile_imp hm
    simp at this
  · intro h
    exact takeWhile_of_not_mem h

theorem nameToTokens_of_split {s : String} {p k : List Char} (hp : ':' ∉ p)
    (hs : s.toList = p ++ ':' :: k) : nameToTokens s =
      if secondLine k = [] then ("", String.ofList p)
      else (String.ofList p, String.ofList (secondLine k)) := by
  obtain ⟨htake, hdrop⟩ := span_of_colon hp hs
  simp only [nameToTokens, htake, hdrop, List.drop_one, List.tail_cons, secondLine]
  rfl

theorem split_unique {p q k l : List Char} (hp : ':' ∉ p) (hq : ':' ∉ q)
    (h : p ++ ':' :: k = q ++ ':' :: l) : p = q ∧ k = l := by
  induction p generalizing q with
  | nil =>
    cases q with
    | nil => simpa using h
    | cons d q => exact absurd (List.cons.inj h).1 fun e => hq (e ▸ List.mem_cons_self)
  | cons c p ih =>
    cases q with
    | nil => exact absurd (List.cons.inj h).1 fun e => hp (e ▸ List.mem_cons_self)
    | cons d q =>
      obtain ⟨rfl, ht⟩ := List.cons.inj h
      obtain ⟨rfl, rfl⟩ := ih (fun hm => hp (List.mem_cons_of_mem c hm))
        (fun hm => hq (List.mem_cons_of_mem c hm)) ht
      exact ⟨rfl, rfl⟩

theorem toList_fullName (nsPrefix name : String) : (fullName nsPrefix name).toList =
    if nsPrefix ≠ "" then nsPrefix.toList ++ ':' :: name.toList else name.toList := by
  unfold fullName
  split
  · simp
  · rfl

/-- With a colon in the name, the parts give it back when neither is lost. -/
theorem fullName_split_iff {s : String} {p k : List Char} (hp : ':' ∉ p)
    (hs : s.toList = p ++ ':' :: k) :
    fullName (nameToTokens s).1 (nameToTokens s).2 = s ↔ p ≠ [] ∧ k ≠ [] ∧ '\n' ∉ k := by
  rw [nameToTokens_of_split hp hs, ← String.toList_inj, toList_fullName, hs]
  by_cases hline : secondLine k = []
  · have hne : p ≠ p ++ ':' :: k := fun h => by simpa using congrArg List.length h
    simp only [if_pos hline, ne_eq, not_true_eq_false, if_false, String.toList_ofList]
    constructor
    · intro h
      exact absurd h hne
    · intro ⟨_, hk, hn⟩
      exact absurd (((secondLine_eq_iff k).mpr hn).symm.trans hline) hk
  · simp only [if_neg hline, String.toList_ofList]
    by_cases h0 : p = []
    · have hlen : (secondLine k).length ≤ k.length := (List.takeWhile_sublist _).length_le
      have hne : secondLine k ≠ ':' :: k := by
        intro h
        have := congrArg List.length h
        simp only [List.length_cons] at this
        omega
      simp [h0, hne]
    · have hofList : String.ofList p ≠ "" := by simpa [String.ofList_eq_empty_iff] using h0
      rw [if_pos hofList, List.append_cancel_left_eq, List.cons.injEq, secondLine_eq_iff]
      constructor
      · intro ⟨_, hn⟩
        refine ⟨h0, fun hk => hline ?_, hn⟩
        rw [hk]
        rfl
      · intro ⟨_, _, hn⟩
        exact ⟨rfl, hn⟩

theorem fullName_nameToTokens_iff (s : String) :
    fullName (nameToTokens s).1 (nameToTokens s).2 = s ↔ Rejoins s := by
  by_cases hc : ':' ∈ s.toList
  · obtain ⟨p, k, hs, hp⟩ := List.eq_append_cons_of_mem hc
    rw [fullName_split_iff hp hs]
    constructor
    · intro ⟨h0, hk, hn⟩
      exact Or.inr ⟨p, k, h0, hk, hp, hn, hs⟩
    · intro h
      rcases h with h | ⟨q, l, h0, hl, hq, hn, hs'⟩
      · exact absurd hc h
      · obtain ⟨rfl, rfl⟩ := split_unique hp hq (hs.symm.trans hs')
        exact ⟨h0, hl, hn⟩
  · constructor
    · intro _
      exact Or.inl hc
    · intro _
      rw [nameToTokens_of_noColon hc]
      simp [fullName]

theorem nameToTokens_fullName_iff {p k : String} (h : Joinable p k) :
    nameToTokens (fullName p k) = (p, k) ↔ p = "" ∨ '\n' ∉ k.toList := by
  by_cases h0 : p = ""
  · have hk := h.plain h0
    subst h0
    rw [show fullName "" k = k from rfl, nameToTokens_of_noColon hk]
    simp
  · have hs : (fullName p k).toList = p.toList ++ ':' :: k.toList := by
      rw [toList_fullName, if_pos h0]
    have hne : k.toList ≠ [] := by simpa using h.nonempty
    rw [nameToTokens_of_split h.noColon hs]
    split
    · next hline =>
      constructor
      · intro he
        exact absurd (congrArg Prod.fst he).symm h0
      · intro hn
        rcases hn with hn | hn
        · exact absurd hn h0
        · exact absurd (((secondLine_eq_iff _).mpr hn).symm.trans hline) hne
    · rw [Prod.mk.injEq, String.ofList_toList, ← String.toList_inj, ← String.toList_inj,
        String.toList_ofList, secondLine_eq_iff]
      simp [h0]

theorem cStr_noNul (s : String) : '\x00' ∉ (cStr s).toList := by
  intro h
  rw [cStr, String.toList_ofList] at h
  have := List.mem_takeWhile_imp h
  simp at this

theorem fullName_noNul {p k : String} (hp : '\x00' ∉ p.toList) (hk : '\x00' ∉ k.toList) :
    '\x00' ∉ (fullName p k).toList := by
  rw [toList_fullName]
  split
  · simp [hp, hk]
  · exact hk

/-- What is stored gives the name back when splitting does and no NUL ends a part. -/
theorem fullName_storedTokens_iff (s : String) :
    fullName (storedTokens s).1 (storedTokens s).2 = s ↔ Rejoins s ∧ '\x00' ∉ s.toList := by
  have hkept : '\x00' ∉ s.toList → storedTokens s = nameToTokens s := by
    intro hs
    obtain ⟨h1, h2⟩ := nameToTokens_noNul hs
    rw [storedTokens, cStr_of_noNul h1, cStr_of_noNul h2]
  constructor
  · intro h
    have hs : '\x00' ∉ s.toList := by
      rw [← h]
      exact fullName_noNul (cStr_noNul _) (cStr_noNul _)
    rw [hkept hs] at h
    exact ⟨(fullName_nameToTokens_iff s).mp h, hs⟩
  · rintro ⟨hrejoins, hs⟩
    rw [hkept hs]
    exact (fullName_nameToTokens_iff s).mpr hrejoins

/-- Both directions, with the inputs on which they hold; names that are given back and have no
NUL are not stored under the prefix and the name of another such name. -/
theorem tokens_inverse_iff (s t p k : String) :
    (s ≠ "" → (fullName (nameToTokens s).1 (nameToTokens s).2 = s ↔ Rejoins s)) ∧
    (fullName (storedTokens s).1 (storedTokens s).2 = s ↔ Rejoins s ∧ '\x00' ∉ s.toList) ∧
    (Rejoins s → '\x00' ∉ s.toList → Rejoins t → '\x00' ∉ t.toList → s ≠ t →
      storedTokens s ≠ storedTokens t) ∧
    (Joinable p k → (nameToTokens (fullName p k) = (p, k) ↔ p = "" ∨ '\n' ∉ k.toList)) := by
  refine ⟨fun _ => fullName_nameToTokens_iff s, fullName_storedTokens_iff s, ?_,
    nameToTokens_fullName_iff⟩
  intro hs hs0 ht ht0 hne he
  apply hne
  rw [← (fullName_storedTokens_iff s).mpr ⟨hs, hs0⟩, he]
  exact (fullName_storedTokens_iff t).mpr ⟨ht, ht0⟩

/-- A newline ends the second part, so two names are stored under the same parts; so are two
names that differ after a NUL, although splitting and joining gives both back. -/
theorem newline_is_lost : "p:a\nb" ≠ "" ∧
    fullName (nameToTokens "p:a\nb").1 (nameToTokens "p:a\nb").2 ≠ "p:a\nb" ∧
    storedTokens "p:a\nb" = storedTokens "p:a" ∧
    "a\x00b" ≠ "a\x00c" ∧ storedTokens "a\x00b" = storedTokens "a\x00c" ∧
    Joinable "p" "a\nb" ∧ nameToTokens (fullName "p" "a\nb") ≠ ("p", "a\nb") :=
  ⟨by decide, by decide, by decide, by decide, by decide, ⟨by decide, by decide, by decide⟩,
    by decide⟩

theorem tokens_inverse_at_ex :
    fullName (nameToTokens "ex:e1").1 (nameToTokens "ex:e1").2 = "ex:e1" ∧
      storedTokens "ex:e1" ≠ storedTokens "e1" ∧
      nameToTokens (fullName "ex" "e1") = ("ex", "e1") := by
  obtain ⟨hrejoin, -, hstored, hsplit⟩ := tokens_inverse_iff "ex:e1" "e1" "ex" "e1"
  have hrejoins : Rejoins "ex:e1" :=
    Or.inr ⟨['e', 'x'], ['e', '1'], by decide, by decide, by decide, by decide, by decide⟩
  refine ⟨(hrejoin (by decide)).mpr hrejoins, ?_, ?_⟩
  · exact hstored hrejoins (by decide) (Or.inl (by decide)) (by decide) (by decide)
  · have hjoinable : Joinable "ex" "e1" := ⟨by decide, by decide, by decide⟩
    exact (hsplit hjoinable).mpr (Or.inr (by decide))

end NameTokens
