import VantiqMicro.PercentCoding

/-! # The parts of a URL

A URL reference split as RFC 3986 has it: an optional scheme before the first
`:`, an optional authority after `//`, and a path that ends at the first `?` or
`#`.  What holds a blank or a control byte is no URL.  `rawPath_append` says what
becomes of a path when more is written after a URL: it goes on, unless the URL is a
lone slash, which then turns into the start of an authority.  A URL with a query or a
fragment keeps it whatever is written after (`bare_iff`), and one with an authority
keeps that if what follows it is a path, a query or a fragment
(`authority_append`). -/

namespace CMem.Url

/-- A query or a fragment starts at `c`. -/
def ends (c : UInt8) : Bool := c == 63 || c == 35

/-- A blank or a control byte, which no URL holds. -/
def junk (c : UInt8) : Bool := c ≤ 32 || c == 127

/-- The byte stands for itself in the path of a URL. -/
def Literal (c : UInt8) : Prop := ends c = false ∧ junk c = false ∧ c ≠ 37

instance : DecidablePred Literal := fun _ => inferInstanceAs (Decidable (_ ∧ _))

/-- The URL without its query and its fragment. -/
def base (s : Bytes) : Bytes := s.takeWhile fun c => !ends c

/-- What follows the scheme and its colon. -/
def hier (s : Bytes) : Bytes :=
  let rest := s.dropWhile fun c => c != 58 && c != 47
  if rest.head? = some 58 ∧ s.head? ≠ some 58 then rest.tail else s

/-- What stands between `//` and the next slash. -/
def netLoc (s : Bytes) : Option Bytes :=
  if s.take 2 = [47, 47] then some ((s.drop 2).takeWhile (· != 47)) else none

/-- The server a URL addresses. -/
def authority (s : Bytes) : Option Bytes := netLoc (hier (base s))

/-- What follows the authority. -/
def afterAuthority (s : Bytes) : Bytes :=
  if s.take 2 = [47, 47] then (s.drop 2).dropWhile (· != 47) else s

/-- The path, as it is written. -/
def rawPath (s : Bytes) : Bytes := afterAuthority (hier (base s))

/-- The path of a URL. -/
def path (s : Bytes) : Option Bytes :=
  if s.any junk then none else some (Percent.decode (rawPath s))

/-- The text between the first `?` and the fragment. -/
def query (s : Bytes) : Option Bytes :=
  let rest := s.dropWhile fun c => !ends c
  if rest.head? = some 63 then some (rest.tail.takeWhile (· != 35)) else none

/-- The text after the first `#`. -/
def fragment (s : Bytes) : Option Bytes :=
  if 35 ∈ s then some (s.dropWhile (· != 35)).tail else none

section Parts
variable {s t : Bytes}

theorem ends_iff {c : UInt8} : ends c = true ↔ c = 63 ∨ c = 35 := by
  simp [ends]

/-- Of bytes that are given each is looked at. -/
theorem literal_of_all (h : s.all (fun c => decide (Literal c)) = true) : ∀ c ∈ s, Literal c :=
  fun c hc => of_decide_eq_true (List.all_eq_true.mp h c hc)

theorem literal_of_digit {c : UInt8} (h48 : 48 ≤ c) (h57 : c ≤ 57) : Literal c := by
  have hne : ∀ d : UInt8, d < 48 ∨ 57 < d → c ≠ d := by
    rintro d (hd | hd) rfl
    · exact absurd h48 (UInt8.not_le.mpr hd)
    · exact absurd h57 (UInt8.not_le.mpr hd)
  have h32 : ¬ c ≤ 32 := UInt8.not_le.mpr (UInt8.lt_of_lt_of_le (by decide) h48)
  refine ⟨?_, ?_, hne 37 (by decide)⟩
  · simp [ends, hne 63 (by decide), hne 35 (by decide)]
  · simp [junk, h32, hne 127 (by decide)]

theorem base_of_bare (h : ∀ c ∈ s, ends c = false) : base s = s := by
  rw [base, List.takeWhile_eq_self_iff]
  intro c hc
  rw [h c hc]
  rfl

/-- **A URL has neither query nor fragment when no byte of it starts one.** -/
theorem bare_iff : (query s = none ∧ fragment s = none) ↔ ∀ c ∈ s, ends c = false := by
  constructor
  · rintro ⟨hquery, hfragment⟩ c hc
    rw [← Bool.not_eq_true]
    intro hend
    have h35 : 35 ∉ s := by
      intro hmem
      rw [fragment, if_pos hmem] at hfragment
      cases hfragment
    -- the first byte that ends the path can only be a `?`
    cases hdrop : s.dropWhile fun c => !ends c with
    | nil =>
      have hall := List.dropWhile_eq_nil_iff.mp hdrop c hc
      rw [hend] at hall
      cases hall
    | cons d rest =>
      have hd : ends d = true := by
        have := List.head?_dropWhile_not (fun c => !ends c) s
        rw [hdrop] at this
        simpa using this
      have hmem : d ∈ s := (List.dropWhile_suffix _).subset (hdrop ▸ List.mem_cons_self ..)
      rcases ends_iff.mp hd with rfl | rfl
      · rw [query, hdrop] at hquery
        cases hquery
      · exact h35 hmem
  · intro h
    have hdrop : s.dropWhile (fun c => !ends c) = [] := by
      rw [List.dropWhile_eq_nil_iff]
      intro c hc
      rw [h c hc]
      rfl
    have h35 : 35 ∉ s := fun hmem => absurd (h 35 hmem) (by decide)
    rw [query, hdrop, fragment, if_neg h35]
    exact ⟨rfl, rfl⟩

theorem dropWhile_append_cons {p : UInt8 → Bool} {c : UInt8} (hc : p c = false) (s t : Bytes) :
    (s ++ c :: t).dropWhile p = s.dropWhile p ++ c :: t := by
  induction s with
  | nil => simp [hc]
  | cons d s ih =>
    by_cases hd : p d <;> simp [hd, ih]

theorem hier_append (s t : Bytes) : hier (s ++ 47 :: t) = hier s ++ 47 :: t := by
  rw [hier, hier, dropWhile_append_cons (by rfl)]
  cases hs : s.dropWhile fun c => c != 58 && c != 47 with
  | nil => simp
  | cons c rest =>
    have hne : s ≠ [] := by
      rintro rfl
      cases hs
    obtain ⟨d, s, rfl⟩ := List.exists_cons_of_ne_nil hne
    have hiff : ((c :: rest ++ 47 :: t).head? = some 58 ∧ (d :: s ++ 47 :: t).head? ≠ some 58) ↔
        ((c :: rest).head? = some 58 ∧ (d :: s).head? ≠ some 58) := Iff.rfl
    by_cases hscheme : (c :: rest).head? = some 58 ∧ (d :: s).head? ≠ some 58
    · rw [if_pos hscheme, if_pos (hiff.mpr hscheme)]
      rfl
    · rw [if_neg hscheme, if_neg (hiff.not.mpr hscheme)]

theorem afterAuthority_append (hs : s ≠ [47]) (ht : t.head? ≠ some 47) :
    afterAuthority (s ++ 47 :: t) = afterAuthority s ++ 47 :: t := by
  rw [afterAuthority, afterAuthority]
  match s with
  | [] =>
    cases t with
    | nil => rfl
    | cons d t => simp_all
  | [a] =>
    have ha : a ≠ 47 := fun h => hs (h ▸ rfl)
    simp [ha]
  | a :: b :: s =>
    have hiff : (a :: b :: s ++ 47 :: t).take 2 = [47, 47] ↔ (a :: b :: s).take 2 = [47, 47] :=
      Iff.rfl
    by_cases hab : (a :: b :: s).take 2 = [47, 47]
    · rw [if_pos hab, if_pos (hiff.mpr hab)]
      exact dropWhile_append_cons (by rfl) s t
    · rw [if_neg hab, if_neg (hiff.not.mpr hab)]

/-- What is written after a URL goes on with its path. -/
theorem rawPath_append (hs : hier s ≠ [47]) (ht : t.head? ≠ some 47)
    (hbare : ∀ c ∈ s ++ 47 :: t, ends c = false) :
    rawPath (s ++ 47 :: t) = rawPath s ++ 47 :: t := by
  have hbare' : ∀ c ∈ s, ends c = false := fun c hc => hbare c (List.mem_append_left _ hc)
  rw [rawPath, rawPath, base_of_bare hbare, base_of_bare hbare', hier_append,
    afterAuthority_append hs ht]

/-- After a lone slash it does not. -/
theorem length_rawPath_slash_append (hs : hier s = [47])
    (hbare : ∀ c ∈ s ++ 47 :: t, ends c = false) : (rawPath (s ++ 47 :: t)).length ≤ t.length := by
  rw [rawPath, base_of_bare hbare, hier_append, hs]
  show (t.dropWhile (· != 47)).length ≤ t.length
  exact (List.dropWhile_suffix _).length_le

theorem path_eq_some_iff {p : Bytes} :
    path s = some p ↔ (∀ c ∈ s, junk c = false) ∧ Percent.decode (rawPath s) = p := by
  have hany : (∀ c ∈ s, junk c = false) ↔ ¬ s.any junk = true := by simp
  rw [path, hany]
  split <;> simp_all

theorem decode_rawPath_append (hs : hier s ≠ [47]) (ht : t.head? ≠ some 47)
    (hbare : ∀ c ∈ s ++ 47 :: t, ends c = false) :
    Percent.decode (rawPath (s ++ 47 :: t)) =
      Percent.decode (rawPath s) ++ 47 :: Percent.decode t := by
  rw [rawPath_append hs ht hbare, Percent.decode_append rfl, Percent.decode_cons (by decide)]

/-- **When text written after a URL is read back as the rest of its path**, and as
nothing else. -/
theorem path_append_iff (ht : t.head? ≠ some 47) :
    ((∃ p, path s = some p ∧ path (s ++ 47 :: t) = some (p ++ 47 :: t)) ∧
      query (s ++ 47 :: t) = none ∧ fragment (s ++ 47 :: t) = none) ↔
    (∀ c ∈ s ++ 47 :: t, ends c = false ∧ junk c = false) ∧ hier s ≠ [47] ∧
      Percent.decode t = t := by
  simp only [path_eq_some_iff]
  rw [bare_iff]
  constructor
  · rintro ⟨⟨p, ⟨-, rfl⟩, hjunk, hpath⟩, hbare⟩
    refine ⟨fun c hc => ⟨hbare c hc, hjunk c hc⟩, ?_⟩
    by_cases hs : hier s = [47]
    · have hle := Nat.le_trans (Percent.length_decode_le _) (length_rawPath_slash_append hs hbare)
      rw [hpath, List.length_append, List.length_cons] at hle
      omega
    · rw [decode_rawPath_append hs ht hbare, List.append_cancel_left_eq,
        List.cons_inj_right] at hpath
      exact ⟨hs, hpath⟩
  · rintro ⟨hbytes, hs, hdecode⟩
    have hbare : ∀ c ∈ s ++ 47 :: t, ends c = false := fun c hc => (hbytes c hc).1
    have hjunk : ∀ c ∈ s ++ 47 :: t, junk c = false := fun c hc => (hbytes c hc).2
    refine ⟨⟨_, ⟨fun c hc => hjunk c (List.mem_append_left _ hc), rfl⟩, hjunk, ?_⟩, hbare⟩
    rw [decode_rawPath_append hs ht hbare, hdecode]

/-- Text that goes on with a path, a query or a fragment, or is empty. -/
def Continues (t : Bytes) : Prop := ∀ c ∈ t.head?, c = 47 ∨ ends c = true

theorem continues_cons {c : UInt8} (hc : c = 47 ∨ ends c = true) (t : Bytes) :
    Continues (c :: t) := by
  rintro d hd
  obtain rfl : c = d := Option.some.inj hd
  exact hc

theorem takeWhile_append_cons {p : UInt8 → Bool} {c : UInt8} (hc : p c = false) (s t : Bytes) :
    (s ++ c :: t).takeWhile p = s.takeWhile p := by
  induction s with
  | nil => simp [hc]
  | cons d s ih =>
    by_cases hd : p d <;> simp [hd, ih]

/-- What cannot go on an authority leaves the text in front of a query as it is, or adds to
its path. -/
theorem base_append (ht : Continues t) :
    base (s ++ t) = base s ∨ ∃ rest, base (s ++ t) = base s ++ 47 :: rest := by
  rw [base, base, List.takeWhile_append]
  split
  · rename_i hlen
    rw [(List.takeWhile_prefix _).eq_of_length hlen]
    cases t with
    | nil => exact Or.inl (List.append_nil s)
    | cons c t =>
      rcases ht c rfl with rfl | hc
      · exact Or.inr ⟨_, congrArg (s ++ ·) (List.takeWhile_cons_of_pos rfl)⟩
      · rw [List.takeWhile_cons_of_neg (by simp [hc]), List.append_nil]
        exact Or.inl rfl
  · exact Or.inl rfl

theorem netLoc_append (a b : UInt8) (more rest : Bytes) :
    netLoc (a :: b :: (more ++ 47 :: rest)) = netLoc (a :: b :: more) := by
  show (if [a, b] = [47, 47] then some ((more ++ 47 :: rest).takeWhile (· != 47)) else none) =
    if [a, b] = [47, 47] then some (more.takeWhile (· != 47)) else none
  rw [takeWhile_append_cons rfl]

/-- **The authority of a URL stays** when a path, a query or a fragment is written after
it. -/
theorem authority_append {host : Bytes} (hs : authority s = some host) (ht : Continues t) :
    authority (s ++ t) = some host := by
  rcases base_append (s := s) ht with heq | ⟨rest, heq⟩
  · rwa [authority, heq]
  · rw [authority] at hs ⊢
    rw [heq, hier_append]
    match hier (base s), hs with
    | [], hs | [_], hs => simp [netLoc] at hs
    | a :: b :: more, hs => exact (netLoc_append a b more rest).trans hs

/-- A trailing slash can be left out without changing who is addressed. -/
theorem authority_of_append_slash {host : Bytes} (hs : authority (s ++ [47]) = some host)
    (hne : host ≠ []) : authority s = some host := by
  by_cases hall : (s.takeWhile fun c => !ends c).length = s.length
  · have hbase : base s = s := (List.takeWhile_prefix _).eq_of_length hall
    have happend : base (s ++ [47]) = s ++ [47] := by
      rw [base, List.takeWhile_append, if_pos hall]
      rfl
    rw [authority, happend, hier_append] at hs
    rw [authority, hbase]
    match hier s, hs with
    | [], hs => simp [netLoc] at hs
    | [a], hs =>
      have hnil : a = 47 ∧ host = [] := by simpa [netLoc, eq_comm] using hs
      exact absurd hnil.2 hne
    | a :: b :: more, hs => exact (netLoc_append a b more []).symm.trans hs
  · have hbase : base (s ++ [47]) = base s := by rw [base, List.takeWhile_append, if_neg hall, base]
    rwa [authority, hbase] at hs

theorem continues_append (hs : Continues s) (ht : Continues t) : Continues (s ++ t) := by
  cases s with
  | nil => exact ht
  | cons c s => exact hs

end Parts

end CMem.Url
