import Mathlib.Tactic.ByContra

/-!
The parts of what follows a resource in a URL. Parts that are free of the characters that end them
can be told from the text that they make up.
-/

namespace ODataGraph.Url

/-- A segment, the arguments in parentheses after it, and the options of a query. Parentheses can
stand around no arguments. -/
structure Parts where
  segment : String
  arguments : Option (List (String × String)) := none
  options : List (String × String) := []

def assigned (a : String × String) : String := a.1 ++ "=" ++ a.2

def argumentsText : Option (List (String × String)) → String
  | none => ""
  | some arguments => "(" ++ String.intercalate "," (arguments.map assigned) ++ ")"

def optionsText (options : List (String × String)) : String :=
  if options.isEmpty then "" else "?" ++ String.intercalate "&" (options.map assigned)

def Parts.text (p : Parts) : String :=
  "/" ++ p.segment ++ argumentsText p.arguments ++ optionsText p.options

/-- None of the characters occurs in a text. -/
def FreeOf (cs : List Char) (s : String) : Prop := ∀ c ∈ s.toList, c ∉ cs

instance (cs : List Char) (s : String) : Decidable (FreeOf cs s) := List.decidableBAll _ _

/-- The characters that end a name do not occur in names, nor those that end a value in values. -/
def Separable (names values : List Char) (l : List (String × String)) : Prop :=
  ∀ a ∈ l, FreeOf names a.1 ∧ FreeOf values a.2

/-- No part holds a character that would end it. -/
structure Parts.Delimited (p : Parts) : Prop where
  segment : FreeOf ['/', '(', '?'] p.segment
  arguments : ∀ arguments ∈ p.arguments, Separable ['=', ',', ')'] [',', ')'] arguments
  options : Separable ['=', '&'] ['&'] p.options

/-- A text that is empty or begins with one of the characters. -/
def BeginsIn (cs rest : List Char) : Prop := ∀ c ∈ rest.head?, c ∈ cs

theorem beginsIn_cons {cs rest : List Char} {c : Char} (h : c ∈ cs) : BeginsIn cs (c :: rest) := by
  intro d hd
  cases hd
  exact h

/-- Texts that are free of the characters end where one of these stands. -/
theorem eq_of_append_eq {cs a b x y : List Char} (ha : ∀ c ∈ a, c ∉ cs) (hb : ∀ c ∈ b, c ∉ cs)
    (hx : BeginsIn cs x) (hy : BeginsIn cs y) (h : a ++ x = b ++ y) : a = b ∧ x = y := by
  induction a generalizing b with
  | nil =>
    cases b with
    | nil => exact ⟨rfl, h⟩
    | cons c b =>
      have hc : c ∈ cs := hx c (by rw [show x = c :: b ++ y from h]; rfl)
      exact absurd hc (hb c List.mem_cons_self)
  | cons c a ih =>
    cases b with
    | nil =>
      have hc : c ∈ cs := hy c (by rw [show y = c :: a ++ x from h.symm]; rfl)
      exact absurd hc (ha c List.mem_cons_self)
    | cons c' b =>
      obtain ⟨rfl, hrest⟩ := List.cons.inj h
      obtain ⟨rfl, hxy⟩ := ih (fun d hd => ha d (List.mem_cons_of_mem _ hd))
        (fun d hd => hb d (List.mem_cons_of_mem _ hd)) hrest
      exact ⟨rfl, hxy⟩

/-- Parts can be told from their text with separators between them, if none is empty. -/
theorem intercalate_inj {sep : Char} {ps qs : List (List Char)} (hp : ∀ p ∈ ps, sep ∉ p ∧ p ≠ [])
    (hq : ∀ q ∈ qs, sep ∉ q ∧ q ≠ []) (h : [sep].intercalate ps = [sep].intercalate qs) :
    ps = qs := by
  have hempty : ∀ {ps : List (List Char)}, (∀ p ∈ ps, sep ∉ p ∧ p ≠ []) →
      [sep].intercalate ps = [] → ps = [] := by
    intro ps hp hnil
    by_contra hne
    have hsplit := List.splitOn_intercalate sep (fun p hmem => (hp p hmem).1) hne
    rw [hnil] at hsplit
    exact (hp [] (hsplit ▸ List.mem_singleton_self [])).2 rfl
  by_cases hps : ps = []
  · subst hps
    exact (hempty hq (h.symm.trans List.intercalate_nil)).symm
  · have hqs : qs ≠ [] := by
      rintro rfl
      exact hps (hempty hp (h.trans List.intercalate_nil))
    rw [← List.splitOn_intercalate sep (fun p hmem => (hp p hmem).1) hps, h,
      List.splitOn_intercalate sep (fun q hmem => (hq q hmem).1) hqs]

theorem not_mem_intercalate {c sep : Char} {parts : List (List Char)} (hsep : c ≠ sep)
    (hparts : ∀ p ∈ parts, c ∉ p) : c ∉ [sep].intercalate parts := by
  induction parts with
  | nil => exact List.not_mem_nil
  | cons p rest ih =>
    cases rest with
    | nil =>
      rw [List.intercalate_singleton]
      exact hparts p List.mem_cons_self
    | cons q rest =>
      have hrest := ih fun p hp => hparts p (List.mem_cons_of_mem _ hp)
      rw [List.intercalate_cons_cons, List.mem_append, List.mem_append, List.mem_singleton]
      exact not_or_intro (not_or_intro (hparts p List.mem_cons_self) hsep) hrest

theorem eq_of_map_eq {α β : Type} {f : α → β} {l l' : List α}
    (hinj : ∀ a ∈ l, ∀ b ∈ l', f a = f b → a = b) (h : l.map f = l'.map f) : l = l' := by
  induction l generalizing l' with
  | nil => exact (List.map_eq_nil_iff.1 h.symm).symm
  | cons a l ih =>
    cases l' with
    | nil => cases h
    | cons b l' =>
      obtain ⟨hab, hrest⟩ := List.cons.inj h
      have htail : l = l' := ih (fun a ha b hb =>
        hinj a (List.mem_cons_of_mem _ ha) b (List.mem_cons_of_mem _ hb)) hrest
      rw [hinj a List.mem_cons_self b List.mem_cons_self hab, htail]

/-- The characters of assignments with separators between them. -/
def joined (sep : Char) (l : List (String × String)) : List Char :=
  [sep].intercalate ((l.map assigned).map String.toList)

section Assignments

variable {sep : Char} {names values : List Char} {l l' : List (String × String)}
  {a b : String × String}

theorem assigned_inj (ha : '=' ∉ a.1.toList) (hb : '=' ∉ b.1.toList)
    (h : assigned a = assigned b) : a = b := by
  have hchars : a.1.toList ++ '=' :: a.2.toList = b.1.toList ++ '=' :: b.2.toList := by
    have htexts := congrArg String.toList h
    simpa [assigned, String.toList_append] using htexts
  have hfree : ∀ {name : String}, '=' ∉ name.toList → ∀ c ∈ name.toList, c ∉ ['='] := by
    intro name hname c hc hmem
    exact hname (List.mem_singleton.1 hmem ▸ hc)
  have hbegins : ∀ rest, BeginsIn ['='] ('=' :: rest) := fun _ =>
    beginsIn_cons List.mem_cons_self
  obtain ⟨hname, hvalue⟩ :=
    eq_of_append_eq (hfree ha) (hfree hb) (hbegins _) (hbegins _) hchars
  exact Prod.ext (String.toList_inj.1 hname) (String.toList_inj.1 (List.cons.inj hvalue).2)

theorem Separable.not_mem_assigned (h : Separable names values l) {c : Char} (hc : c ∈ names)
    (hc' : c ∈ values) (hne : c ≠ '=') (ha : a ∈ l) : c ∉ (assigned a).toList := by
  obtain ⟨hname, hvalue⟩ := h a ha
  simp only [assigned, String.toList_append, List.mem_append]
  rintro ((hmem | hmem) | hmem)
  · exact hname c hmem hc
  · exact hne (by simpa using hmem)
  · exact hvalue c hmem hc'

theorem Separable.not_mem_joined (h : Separable names values l) {c : Char} (hc : c ∈ names)
    (hc' : c ∈ values) (hne : c ≠ '=') (hsep : c ≠ sep) : c ∉ joined sep l := by
  refine not_mem_intercalate hsep fun p hp => ?_
  rw [List.map_map] at hp
  obtain ⟨a, ha, rfl⟩ := List.mem_map.1 hp
  exact h.not_mem_assigned hc hc' hne ha

/-- Assignments can be told from their text if their separator is one of the characters that end
names and values. -/
theorem Separable.joined_inj (h : Separable names values l) (h' : Separable names values l')
    (heq : '=' ∈ names) (hsep : sep ∈ names) (hsep' : sep ∈ values) (hne : sep ≠ '=')
    (hjoined : joined sep l = joined sep l') : l = l' := by
  have hparts : ∀ {l}, Separable names values l →
      ∀ p ∈ (l.map assigned).map String.toList, sep ∉ p ∧ p ≠ [] := by
    intro l h p hp
    rw [List.map_map] at hp
    obtain ⟨a, ha, rfl⟩ := List.mem_map.1 hp
    exact ⟨h.not_mem_assigned hsep hsep' hne ha, by simp [assigned, String.toList_append]⟩
  have hnames : ∀ {l}, Separable names values l → ∀ a ∈ l, '=' ∉ a.1.toList :=
    fun h a ha hmem => (h a ha).1 '=' hmem heq
  have htexts := intercalate_inj (hparts h) (hparts h') hjoined
  have hassigned := eq_of_map_eq (fun _ _ _ _ => String.toList_inj.1) htexts
  exact eq_of_map_eq (fun a ha b hb => assigned_inj (hnames h a ha) (hnames h' b hb)) hassigned

theorem toList_argumentsText (l : List (String × String)) :
    (argumentsText (some l)).toList = '(' :: (joined ',' l ++ [')']) := by
  simp [argumentsText, joined, String.toList_append, String.toList_intercalate]

theorem toList_optionsText (h : l ≠ []) : (optionsText l).toList = '?' :: joined '&' l := by
  have hempty : l.isEmpty = false := by simpa using h
  simp [optionsText, hempty, joined, String.toList_append, String.toList_intercalate]

theorem beginsIn_optionsText (l : List (String × String)) :
    BeginsIn ['?'] (optionsText l).toList := by
  by_cases h : l = []
  · subst h
    intro c hc
    cases hc
  · rw [toList_optionsText h]
    exact beginsIn_cons List.mem_cons_self

theorem beginsIn_argumentsText (arguments : Option (List (String × String))) {rest : List Char}
    (h : BeginsIn ['?'] rest) :
    BeginsIn ['/', '(', '?'] ((argumentsText arguments).toList ++ rest) := by
  cases arguments with
  | none => exact fun c hc => by simp [List.mem_singleton.1 (h c hc)]
  | some l =>
    rw [toList_argumentsText]
    exact beginsIn_cons (by decide)

theorem optionsText_inj (hl : Separable ['=', '&'] ['&'] l) (hl' : Separable ['=', '&'] ['&'] l')
    (h : (optionsText l).toList = (optionsText l').toList) : l = l' := by
  by_cases hnil : l = []
  · subst hnil
    by_contra hne
    rw [toList_optionsText (Ne.symm hne)] at h
    cases h
  · have hnil' : l' ≠ [] := by
      rintro rfl
      rw [toList_optionsText hnil] at h
      cases h
    rw [toList_optionsText hnil, toList_optionsText hnil'] at h
    exact hl.joined_inj hl' (by decide) (by decide) (by decide) (by decide) (List.cons.inj h).2

/-- Arguments end with the first closing parenthesis after an opening one. -/
theorem argumentsText_inj {arguments arguments' : Option (List (String × String))}
    {x y : List Char} (hl : ∀ l ∈ arguments, Separable ['=', ',', ')'] [',', ')'] l)
    (hl' : ∀ l ∈ arguments', Separable ['=', ',', ')'] [',', ')'] l)
    (hx : BeginsIn ['?'] x) (hy : BeginsIn ['?'] y)
    (h : (argumentsText arguments).toList ++ x = (argumentsText arguments').toList ++ y) :
    arguments = arguments' ∧ x = y := by
  have hopened : ∀ {l rest rest'}, BeginsIn ['?'] rest →
      rest ≠ (argumentsText (some l)).toList ++ rest' := by
    intro l rest rest' hrest heq
    rw [toList_argumentsText] at heq
    subst heq
    exact absurd (hrest '(' rfl) (by decide)
  have hclosed : ∀ {l}, Separable ['=', ',', ')'] [',', ')'] l → ∀ c ∈ joined ',' l, c ∉ [')'] := by
    intro l hl c hc hmem
    rw [List.mem_singleton.1 hmem] at hc
    exact hl.not_mem_joined (by decide) (by decide) (by decide) (by decide) hc
  cases arguments with
  | none =>
    cases arguments' with
    | none => exact ⟨rfl, h⟩
    | some l' => exact absurd h (hopened hx)
  | some l =>
    cases arguments' with
    | none => exact absurd h.symm (hopened hy)
    | some l' =>
      rw [toList_argumentsText, toList_argumentsText] at h
      simp only [List.cons_append, List.append_assoc, List.nil_append, List.cons.injEq,
        true_and] at h
      obtain ⟨hjoined, hrest⟩ := eq_of_append_eq (hclosed (hl l rfl)) (hclosed (hl' l' rfl))
        (beginsIn_cons List.mem_cons_self) (beginsIn_cons List.mem_cons_self) h
      have heq := (hl l rfl).joined_inj (hl' l' rfl) (by decide) (by decide) (by decide) (by decide)
        hjoined
      exact ⟨congrArg some heq, (List.cons.inj hrest).2⟩

end Assignments

/-- Parts with their delimiters can be told from the text that they make up. -/
theorem Parts.text_inj {p q : Parts} (hp : p.Delimited) (hq : q.Delimited) (h : p.text = q.text) :
    p = q := by
  have hchars : ∀ p : Parts, p.text.toList = '/' :: (p.segment.toList ++
      ((argumentsText p.arguments).toList ++ (optionsText p.options).toList)) := by
    intro p
    simp [text, String.toList_append]
  have htexts := congrArg String.toList h
  rw [hchars, hchars] at htexts
  have hp' := beginsIn_optionsText p.options
  have hq' := beginsIn_optionsText q.options
  obtain ⟨hsegment, hrest⟩ := eq_of_append_eq hp.segment hq.segment (beginsIn_argumentsText _ hp')
    (beginsIn_argumentsText _ hq') (List.cons.inj htexts).2
  obtain ⟨harguments, hoptions⟩ := argumentsText_inj hp.arguments hq.arguments hp' hq' hrest
  have hlists := optionsText_inj hp.options hq.options hoptions
  cases p
  cases q
  simp only [Parts.mk.injEq]
  exact ⟨String.toList_inj.1 hsegment, harguments, hlists⟩

end ODataGraph.Url
