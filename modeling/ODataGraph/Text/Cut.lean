/-! Cutting a text at a separator, and into lines. -/

namespace ODataGraph.Text

/-- Cuts at every occurrence of `sep`; no part holds it. -/
def cut (sep : Char) : List Char → List (List Char)
  | [] => [[]]
  | c :: cs =>
    if c = sep then [] :: cut sep cs
    else match cut sep cs with
      | [] => [[c]]
      | part :: parts => (c :: part) :: parts

theorem cut_ne_nil (sep : Char) (cs : List Char) : cut sep cs ≠ [] := by
  cases cs with
  | nil => simp [cut]
  | cons c cs =>
    by_cases h : c = sep
    · simp [cut, h]
    · cases hc : cut sep cs <;> simp [cut, h, hc]

theorem not_mem_of_mem_cut {sep : Char} {cs part : List Char} (h : part ∈ cut sep cs) :
    sep ∉ part := by
  induction cs generalizing part with
  | nil => simp_all [cut]
  | cons c cs ih =>
    by_cases hc : c = sep
    · simp only [cut, hc, if_true, List.mem_cons] at h
      rcases h with rfl | h
      · simp
      · exact ih h
    · cases hr : cut sep cs with
      | nil => exact absurd hr (cut_ne_nil sep cs)
      | cons p ps =>
        simp only [cut, hc, if_false, hr, List.mem_cons] at h
        rcases h with rfl | h
        · simpa [Ne.symm hc] using ih (by simp [hr])
        · exact ih (by simp [hr, h])

theorem cut_eq_self {sep : Char} {cs : List Char} (h : sep ∉ cs) : cut sep cs = [cs] := by
  induction cs with
  | nil => rfl
  | cons c cs ih =>
    rw [List.mem_cons, not_or] at h
    rw [cut, if_neg (Ne.symm h.1), ih h.2]

theorem cut_append (sep : Char) (start rest : List Char) :
    cut sep (start ++ sep :: rest) = cut sep start ++ cut sep rest := by
  induction start with
  | nil => simp [cut]
  | cons c cs ih =>
    by_cases hc : c = sep
    · simp [cut, hc, ih]
    · cases hcut : cut sep cs with
      | nil => exact absurd hcut (cut_ne_nil sep cs)
      | cons part parts => simp [cut, hc, ih, hcut]

/-- What stands after the last `sep`; all of the text if there is none. -/
def afterLast (sep : Char) (s : String) : String :=
  String.ofList ((cut sep s.toList).getLastD [])

theorem not_mem_afterLast (sep : Char) (s : String) : sep ∉ (afterLast sep s).toList := by
  rw [afterLast, String.toList_ofList]
  have hlast : (cut sep s.toList).getLastD [] = (cut sep s.toList).getLast (cut_ne_nil _ _) := by
    rw [List.getLastD_eq_getLast?, List.getLast?_eq_some_getLast (cut_ne_nil _ _), Option.getD_some]
  exact hlast ▸ not_mem_of_mem_cut (List.getLast_mem _)

theorem afterLast_eq_self {sep : Char} {s : String} (h : sep ∉ s.toList) : afterLast sep s = s := by
  rw [afterLast, cut_eq_self h]
  exact String.ofList_toList

theorem afterLast_append {sep : Char} {s : String} (h : sep ∉ s.toList) (start : String) :
    afterLast sep (start ++ String.singleton sep ++ s) = s := by
  have hlist : (start ++ String.singleton sep ++ s).toList = start.toList ++ sep :: s.toList := by
    simp
  rw [afterLast, hlist, cut_append, cut_eq_self h, List.getLastD_eq_getLast?, List.getLast?_concat]
  exact String.ofList_toList

def beforeFirst (sep : Char) (s : String) : String :=
  String.ofList (s.toList.takeWhile (· != sep))

/-- A line feed ends a line, together with one carriage return right before it. Nothing after the
last line feed is no line. -/
def lines (s : String) : List String :=
  let parts := cut '\n' s.toList
  let ended := parts.dropLast.map fun line =>
    if line.getLast? = some '\r' then line.dropLast else line
  let last := parts.getLastD []
  (ended ++ if last.isEmpty then [] else [last]).map String.ofList

def dropStart? (start s : String) : Option String :=
  if start.toList.isPrefixOf s.toList then
    some (String.ofList (s.toList.drop start.length))
  else none

def dropEnd? (stop s : String) : Option String :=
  if stop.toList.isSuffixOf s.toList then
    some (String.ofList (s.toList.take (s.length - stop.length)))
  else none

end ODataGraph.Text
