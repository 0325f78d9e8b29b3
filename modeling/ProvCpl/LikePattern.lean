import Mathlib.Data.List.Infix

/-! # LIKE patterns

`%` stands for any text, `_` for one character, and a backslash takes the character after it
literally. A pattern that ends with its escape matches nothing; it is refused when the
comparison comes to the escape with text left. -/
namespace LikePattern

inductive Token where
  | anyText
  | anyChar
  | literal (c : Char)
  | dangling
  deriving DecidableEq, Repr

def tokens : List Char → List Token
  | [] => []
  | c :: p =>
    if c = '%' then .anyText :: tokens p
    else if c = '_' then .anyChar :: tokens p
    else if c = '\\' then
      match p with
      | [] => [.dangling]
      | d :: p => .literal d :: tokens p
    else .literal c :: tokens p

def firstDecided : List (Option Bool) → Option Bool
  | [] => some false
  | some false :: rest => firstDecided rest
  | r :: _ => r

/-- `none` is a comparison that is refused. -/
def likeTokens : List Token → List Char → Option Bool
  | [], t => some t.isEmpty
  | .anyText :: p, t => firstDecided (t.tails.map (likeTokens p))
  | .anyChar :: p, t =>
    match t with
    | [] => some false
    | _ :: t => likeTokens p t
  | .literal c :: p, t =>
    match t with
    | [] => some false
    | d :: t => if c = d then likeTokens p t else some false
  | .dangling :: _, t => if t.isEmpty then some false else none

def like (pattern text : String) : Option Bool := likeTokens (tokens pattern.toList) text.toList

inductive Matches : List Token → List Char → Prop where
  | nil : Matches [] []
  | anyText {p t} (skipped : List Char) : Matches p t → Matches (.anyText :: p) (skipped ++ t)
  | anyChar {p t} (c : Char) : Matches p t → Matches (.anyChar :: p) (c :: t)
  | literal {p t} (c : Char) : Matches p t → Matches (.literal c :: p) (c :: t)

def WellFormed (p : List Token) : Prop := Token.dangling ∉ p

instance (p : List Token) : Decidable (WellFormed p) :=
  inferInstanceAs (Decidable (_ ∉ _))

theorem firstDecided_true {l : List (Option Bool)} (h : firstDecided l = some true) :
    some true ∈ l := by
  induction l with
  | nil => cases h
  | cons r rest ih =>
    cases r with
    | none => cases h
    | some b =>
      cases b with
      | false => exact List.mem_cons_of_mem _ (ih h)
      | true => exact List.mem_cons_self

theorem firstDecided_of_mem {l : List (Option Bool)} (hl : ∀ r ∈ l, r.isSome)
    (h : some true ∈ l) : firstDecided l = some true := by
  induction l with
  | nil => cases h
  | cons r rest ih =>
    cases r with
    | none => exact absurd (hl none List.mem_cons_self) (by simp)
    | some b =>
      cases b with
      | false =>
        refine ih (fun r hr => hl r (List.mem_cons_of_mem _ hr)) ?_
        simpa using h
      | true => rfl

theorem firstDecided_isSome {l : List (Option Bool)} (hl : ∀ r ∈ l, r.isSome) :
    (firstDecided l).isSome := by
  induction l with
  | nil => rfl
  | cons r rest ih =>
    cases r with
    | none => exact absurd (hl none List.mem_cons_self) (by simp)
    | some b =>
      cases b with
      | false => exact ih fun r hr => hl r (List.mem_cons_of_mem _ hr)
      | true => rfl

theorem WellFormed.tail {a : Token} {p : List Token} (h : WellFormed (a :: p)) : WellFormed p :=
  fun hd => h (List.mem_cons_of_mem a hd)

theorem likeTokens_isSome {p : List Token} (h : WellFormed p) (t : List Char) :
    (likeTokens p t).isSome := by
  induction p generalizing t with
  | nil => rfl
  | cons a p ih =>
    cases a with
    | anyText =>
      refine firstDecided_isSome fun r hr => ?_
      obtain ⟨t', -, rfl⟩ := List.mem_map.mp hr
      exact ih h.tail t'
    | anyChar =>
      cases t with
      | nil => rfl
      | cons d t => exact ih h.tail t
    | literal c =>
      cases t with
      | nil => rfl
      | cons d t =>
        rw [likeTokens]
        by_cases hc : c = d
        · rw [if_pos hc]
          exact ih h.tail t
        · rw [if_neg hc]
          rfl
    | dangling => exact absurd List.mem_cons_self h

theorem matches_of_like {p : List Token} {t : List Char} (h : likeTokens p t = some true) :
    Matches p t := by
  induction p generalizing t with
  | nil =>
    obtain rfl : t = [] := by simpa [likeTokens] using h
    exact .nil
  | cons a p ih =>
    cases a with
    | anyText =>
      obtain ⟨t', ht, hm⟩ := List.mem_map.mp (firstDecided_true h)
      obtain ⟨skipped, rfl⟩ := (List.mem_tails t' t).mp ht
      exact .anyText skipped (ih hm)
    | anyChar =>
      cases t with
      | nil => simp [likeTokens] at h
      | cons d t => exact .anyChar d (ih h)
    | literal c =>
      cases t with
      | nil => simp [likeTokens] at h
      | cons d t =>
        by_cases hc : c = d
        · subst hc
          exact .literal c (ih (by simpa [likeTokens] using h))
        · simp [likeTokens, hc] at h
    | dangling =>
      cases t with
      | nil => simp [likeTokens] at h
      | cons d t => simp [likeTokens] at h

theorem Matches.wellFormed {p : List Token} {t : List Char} (h : Matches p t) :
    WellFormed p := by
  induction h with
  | nil => simp [WellFormed]
  | anyText _ _ ih => simpa [WellFormed] using ih
  | anyChar _ _ ih => simpa [WellFormed] using ih
  | literal _ _ ih => simpa [WellFormed] using ih

theorem Matches.like {p : List Token} {t : List Char} (h : Matches p t) :
    likeTokens p t = some true := by
  induction h with
  | nil => rfl
  | @anyText p t skipped h ih =>
    refine firstDecided_of_mem (fun r hr => ?_) (List.mem_map.mpr ⟨t, ?_, ih⟩)
    · obtain ⟨t', -, rfl⟩ := List.mem_map.mp hr
      exact likeTokens_isSome h.wellFormed t'
    · exact (List.mem_tails t _).mpr (List.suffix_append skipped t)
  | anyChar _ _ ih => exact ih
  | literal _ _ ih => simpa [likeTokens] using ih

theorem likeTokens_eq_true {p : List Token} {t : List Char} :
    likeTokens p t = some true ↔ Matches p t :=
  ⟨matches_of_like, Matches.like⟩

end LikePattern
