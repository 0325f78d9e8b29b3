import Mathlib.Data.List.TakeWhile
import Mathlib.Data.String.Basic

/-! # C strings and qualified names

A character stands for one byte of a C string. -/
namespace QualifiedName

/-- What a C function sees of `s.c_str()`: the characters before the first NUL. -/
def cStr (s : String) : String := String.ofList (s.toList.takeWhile (· ≠ '\x00'))

/-- A column copied into a buffer of `size` bytes, the last one for the terminator. -/
def fetchText (size : ℕ) (s : String) : String := String.ofList (s.toList.take (size - 1))

/-- The two `getline` calls stop at the first colon and at the next newline. -/
def nameToTokens (nameString : String) : String × String :=
  let tok1 := nameString.toList.takeWhile (· ≠ ':')
  let tok2 := ((nameString.toList.dropWhile (· ≠ ':')).drop 1).takeWhile (· ≠ '\n')
  if tok2 = [] then ("", String.ofList tok1) else (String.ofList tok1, String.ofList tok2)

/-- The name tokens as C strings, which the importer's writes are called with. -/
def storedTokens (name : String) : String × String :=
  (cStr (nameToTokens name).1, cStr (nameToTokens name).2)

/-- The name under which export writes a prefix and a name. -/
def fullName (nsPrefix name : String) : String :=
  if nsPrefix ≠ "" then nsPrefix ++ ":" ++ name else name

structure StorableName (s : String) : Prop where
  noNul : '\x00' ∉ s.toList
  noNewline : '\n' ∉ s.toList
  shape : (s ≠ "" ∧ ':' ∉ s.toList) ∨
    ∃ p k : List Char, p ≠ [] ∧ k ≠ [] ∧ ':' ∉ p ∧ s.toList = p ++ ':' :: k

theorem takeWhile_of_not_mem {c : Char} {cs : List Char} (h : c ∉ cs) :
    cs.takeWhile (· ≠ c) = cs := by
  rw [List.takeWhile_eq_self_iff]
  intro d hd
  have hne : d ≠ c := fun e => h (e ▸ hd)
  simpa using hne

theorem cStr_of_noNul {s : String} (h : '\x00' ∉ s.toList) : cStr s = s := by
  rw [cStr, takeWhile_of_not_mem h, String.ofList_toList]

theorem fetchText_of_short {size : ℕ} {s : String} (h : s.length < size) :
    fetchText size s = s := by
  have hl : s.toList.length = s.length := String.length_toList
  rw [fetchText, List.take_of_length_le (by omega), String.ofList_toList]

theorem nameToTokens_of_noColon {s : String} (h : ':' ∉ s.toList) :
    nameToTokens s = ("", s) := by
  have hd : s.toList.dropWhile (· ≠ ':') = [] := by
    rw [List.dropWhile_eq_nil_iff]
    intro c hc
    have hne : c ≠ ':' := fun e => h (e ▸ hc)
    simpa using hne
  simp only [nameToTokens, hd, List.drop_nil, List.takeWhile_nil, if_true,
    takeWhile_of_not_mem h, String.ofList_toList]

theorem span_of_colon {s : String} {p k : List Char} (hp : ':' ∉ p)
    (hs : s.toList = p ++ ':' :: k) : s.toList.takeWhile (· ≠ ':') = p ∧
      s.toList.dropWhile (· ≠ ':') = ':' :: k := by
  have hall : ∀ c ∈ p, decide (c ≠ ':') = true := by
    intro c hc
    have hne : c ≠ ':' := fun e => hp (e ▸ hc)
    simpa using hne
  rw [hs, List.takeWhile_append_of_pos hall, List.dropWhile_append_of_pos hall]
  constructor <;> simp

theorem nameToTokens_of_colon {s : String} {p k : List Char} (hp : ':' ∉ p) (hk : k ≠ [])
    (hn : '\n' ∉ k) (hs : s.toList = p ++ ':' :: k) :
    nameToTokens s = (String.ofList p, String.ofList k) := by
  obtain ⟨htake, hdrop⟩ := span_of_colon hp hs
  simp only [nameToTokens, htake, hdrop, List.drop_one, List.tail_cons,
    takeWhile_of_not_mem hn, if_neg hk]

theorem fullName_nameToTokens {s : String} (h : StorableName s) :
    fullName (nameToTokens s).1 (nameToTokens s).2 = s := by
  rcases h.shape with ⟨_, hc⟩ | ⟨p, k, hp, hk, hc, hs⟩
  · rw [nameToTokens_of_noColon hc]
    simp [fullName]
  · have hn : '\n' ∉ k := fun hm => h.noNewline (by rw [hs]; simp [hm])
    rw [nameToTokens_of_colon hc hk hn hs]
    have hne : String.ofList p ≠ "" := by simpa [String.ofList_eq_empty_iff] using hp
    simp only [fullName, if_pos hne]
    rw [← String.toList_inj]
    simp [hs]

theorem nameToTokens_noNul {s : String} (h : '\x00' ∉ s.toList) :
    '\x00' ∉ (nameToTokens s).1.toList ∧ '\x00' ∉ (nameToTokens s).2.toList := by
  have h1 : '\x00' ∉ s.toList.takeWhile (· ≠ ':') :=
    fun hm => h ((List.takeWhile_sublist _).subset hm)
  have h2 : '\x00' ∉ ((s.toList.dropWhile (· ≠ ':')).drop 1).takeWhile (· ≠ '\n') :=
    fun hm => h ((List.dropWhile_sublist _).subset
      ((List.drop_sublist _ _).subset ((List.takeWhile_sublist _).subset hm)))
  unfold nameToTokens
  dsimp only
  split
  · exact ⟨by simp, by rwa [String.toList_ofList]⟩
  · exact ⟨by rwa [String.toList_ofList], by rwa [String.toList_ofList]⟩

end QualifiedName
