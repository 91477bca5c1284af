import Realwork.Common.Log

/-!
# Common — the configuration files

`RTWConf` and `analyzeIni`, which goes through the lines of a file with the section it is in and
fills in a map.  A line is a section if it has a `[` and a `]`, and else an assignment if it has a
`=`; there is no line that is a comment.

* `noEffect_iff`: the lines beginning with `#` that have no effect on what is read.
-/

namespace Realwork.Common

/-- `MIDDLESTRING`. -/
def middleString : Str := lit "_______***_______"

/-- The assignments to the map, the last one first. -/
abbrev IniStrMap := List (Str × Str)

/-- `find`: what was assigned last. -/
def IniStrMap.find (mapkey : Str) : IniStrMap → Option Str
  | [] => none
  | (k, v) :: m => if k = mapkey then some v else find mapkey m

/-- `analyzeIni`. -/
structure AnalyzeIni where
  strSect : Str := []
  map : IniStrMap := []

/-! ### A line -/

def isBlank (b : UInt8) : Bool := b = 0x20 || b = 0x09

def findLast? (p : UInt8 → Bool) (s : Str) : Option Nat :=
  (s.reverse.findIdx? p).map (s.length - 1 - ·)

/-- `find_first_not_of(" \t")`. -/
def findFirstNotOf (s : Str) : Option Nat := s.findIdx? fun b => !isBlank b

/-- `find_last_not_of(" \t")`. -/
def findLastNotOf (s : Str) : Option Nat := findLast? (fun b => !isBlank b) s

/-- `find(pattern, pos)`. -/
def findFrom (pattern s : Str) (pos : Nat) : Option Nat :=
  ((s.drop pos).tails.findIdx? pattern.isPrefixOf).map (pos + ·)

/-- The section a line begins, if it has brackets. -/
def sectionOf (strini : Str) : Option Str := do
  let first ← strini.findIdx? (· = 0x5b)
  let last ← findLast? (· = 0x5d) strini
  if first = last + 1 then none
  -- `last-first-1` is a large number if the brackets stand the other way round
  else if last < first then strini.drop (first + 1)
  else some ((strini.drop (first + 1)).take (last - first - 1))

/-- What a comment behind a value begins with, in the order in which it is looked for. -/
def markers : List Str := [lit "\t#", lit " #", lit "\t//", lit " //"]

def findMarker (s : Str) (pos : Nat) : Option Nat := markers.findSome? fun m => findFrom m s pos

/-- The key before the `=`. -/
def keyOf (strtmp1 : Str) : Option Str := do
  let first ← findFirstNotOf strtmp1
  let last ← findLastNotOf strtmp1
  return (strtmp1.drop first).take (last - first + 1)

/-- The value behind the `=`. -/
def valueOf (strtmp2 : Str) : Option Str := do
  let first ← findFirstNotOf strtmp2
  let strtmp2 := match findMarker strtmp2 first with
    | some last => strtmp2.take (last - first)
    | none => strtmp2
  let last ← findLastNotOf strtmp2
  return (strtmp2.drop first).take (last - first + 1)

/-- The key and the value of a line that has both. -/
def entryOf (strini : Str) : Option (Str × Str) := do
  let first ← strini.findIdx? (· = 0x3d)
  let strkey ← keyOf (strini.take first)
  let value ← valueOf (strini.drop (first + 1))
  return (strkey, value)

def mapKey (psect pkey : Str) : Str := psect ++ middleString ++ pkey

/-- `analyzeIni::operator()`. -/
def AnalyzeIni.line (ini : AnalyzeIni) (strini : Str) : AnalyzeIni :=
  match sectionOf strini with
  | some strSect => { ini with strSect }
  | none =>
      if ini.strSect = [] then ini
      else match entryOf strini with
        | some (strkey, value) => { ini with map := (mapKey ini.strSect strkey, value) :: ini.map }
        | none => ini

/-! ### `RTWConf` -/

def AnalyzeIni.lines (ini : AnalyzeIni) (ls : List Str) : AnalyzeIni := ls.foldl line ini

/-- `open` of a file with these bytes: what it returns, and `m_InitMap`. -/
def openConf (content : Str) : Bool × IniStrMap :=
  let m := (AnalyzeIni.lines {} (content.splitOn newline)).map
  (m ≠ [], m)

/-- What is read of a key of the map: nothing, if it is not there. -/
def IniStrMap.get (m : IniStrMap) (mapkey : Str) : Str := (m.find mapkey).getD []

/-- `read`, of C strings. -/
def IniStrMap.read (m : IniStrMap) (psect pkey : Str) : Str :=
  m.get (mapKey (cstr psect) (cstr pkey))

example : (openConf (lit "[a]\nk = v # c\n k2\t=w")).2.read (lit "a") (lit "k2") = lit "w" := by
  decide +kernel

/-! ### What can be read -/

/-- Some section and key that does not begin with `#` ask for this key of the map. -/
def Asked (mapkey : Str) : Prop :=
  ∃ psect pkey : Str, pkey.head? ≠ some 0x23 ∧ mapKey (cstr psect) (cstr pkey) = mapkey

/-- A section that can be asked for: it has a name, without a NUL. -/
def Readable (strSect : Str) : Prop := strSect ≠ [] ∧ 0 ∉ strSect

instance (strSect : Str) : Decidable (Readable strSect) := inferInstanceAs (Decidable (_ ∧ _))

theorem zero_not_mem_cstr (s : Str) : 0 ∉ cstr s := by
  intro h
  simpa using List.mem_takeWhile_imp h

theorem Asked.zero_not_mem {strSect strkey : Str} (h : Asked (mapKey strSect strkey)) :
    0 ∉ strSect := by
  obtain ⟨psect, pkey, -, heq⟩ := h
  have hzero : 0 ∉ mapKey (cstr psect) (cstr pkey) := by
    simp only [mapKey, List.mem_append, not_or]
    exact ⟨⟨zero_not_mem_cstr _, by decide⟩, zero_not_mem_cstr _⟩
  intro hm
  rw [heq] at hzero
  exact hzero (List.mem_append_left _ (List.mem_append_left _ hm))

theorem mapKey_left_inj {s s' k : Str} : mapKey s k = mapKey s' k ↔ s = s' := by
  simp [mapKey]

@[simp] theorem IniStrMap.get_cons {k v mapkey : Str} {m : IniStrMap} :
    IniStrMap.get ((k, v) :: m) mapkey = if k = mapkey then v else m.get mapkey := by
  rw [get, find]
  split
  · rfl
  · rfl

/-! ### Two files -/

/-- What is in force in two files: the same section, or none that can be asked for, and the same
values of what can be asked for. -/
structure Agree (ini ini' : AnalyzeIni) : Prop where
  sect : ini.strSect = ini'.strSect ∨ ¬ Readable ini.strSect ∧ ¬ Readable ini'.strSect
  get : ∀ mapkey, Asked mapkey → ini.map.get mapkey = ini'.map.get mapkey

theorem Agree.refl (ini : AnalyzeIni) : Agree ini ini := ⟨.inl rfl, fun _ _ => rfl⟩

section

variable {ini ini' : AnalyzeIni} {l : Str}

/-- In a section that cannot be asked for nothing is assigned that can be. -/
theorem AnalyzeIni.get_line (hread : ¬ Readable ini.strSect) {mapkey : Str}
    (hasked : Asked mapkey) : (ini.line l).map.get mapkey = ini.map.get mapkey := by
  unfold line
  split
  · rfl
  · split
    · rfl
    · rename_i hne
      split
      · rename_i strkey value _
        rw [IniStrMap.get_cons, if_neg]
        rintro rfl
        exact hread ⟨hne, hasked.zero_not_mem⟩
      · rfl

theorem AnalyzeIni.strSect_line (ini : AnalyzeIni) (l : Str) :
    (ini.line l).strSect = (sectionOf l).getD ini.strSect := by
  unfold line
  cases sectionOf l with
  | some s => rfl
  | none =>
      dsimp only
      split
      · rfl
      · split <;> rfl

/-- **One line** more in both files. -/
theorem Agree.line (h : Agree ini ini') (l : Str) : Agree (ini.line l) (ini'.line l) := by
  obtain ⟨hsect, hget⟩ := h
  constructor
  · rw [AnalyzeIni.strSect_line, AnalyzeIni.strSect_line]
    cases sectionOf l with
    | some s => exact .inl rfl
    | none => exact hsect
  · intro mapkey hasked
    rcases hsect with heq | ⟨hread, hread'⟩
    · have hget := hget mapkey hasked
      simp only [AnalyzeIni.line, heq]
      split
      · exact hget
      · split
        · exact hget
        · split
          · rw [IniStrMap.get_cons, IniStrMap.get_cons, hget]
          · exact hget
    · rw [AnalyzeIni.get_line hread hasked, AnalyzeIni.get_line hread' hasked]
      exact hget mapkey hasked

theorem Agree.lines (h : Agree ini ini') (ls : List Str) :
    Agree (ini.lines ls) (ini'.lines ls) := by
  induction ls generalizing ini ini' with
  | nil => exact h
  | cons l ls ih => exact ih (h.line l)

/-- An assignment in a section. -/
theorem AnalyzeIni.get_line_entry {k v : Str} (hsect : sectionOf l = none)
    (hentry : entryOf l = some (k, v)) (hne : ini.strSect ≠ []) (mapkey : Str) :
    (ini.line l).map.get mapkey =
      if mapKey ini.strSect k = mapkey then v else ini.map.get mapkey := by
  simp only [line, hsect, if_neg hne, hentry, IniStrMap.get_cons]

/-- **Two sections are told apart** by a line that may follow. -/
theorem exists_line_read_ne (hmap : ini.map = ini'.map) (hread : Readable ini.strSect)
    (hne : ini.strSect ≠ ini'.strSect) : ∃ l psect pkey : Str, newline ∉ l ∧
      pkey.head? ≠ some 0x23 ∧
      (ini.line l).map.read psect pkey ≠ (ini'.line l).map.read psect pkey := by
  -- a value that is not there already
  obtain ⟨v, hv, hnew⟩ : ∃ v ∈ [lit "a", lit "b"],
      ini.map.get (mapKey ini.strSect (lit "k")) ≠ v := by
    by_cases ha : ini.map.get (mapKey ini.strSect (lit "k")) = lit "a"
    · refine ⟨lit "b", by simp, ?_⟩
      rw [ha]
      decide
    · exact ⟨lit "a", by simp, ha⟩
  have hline : newline ∉ lit "k=" ++ v ∧ sectionOf (lit "k=" ++ v) = none ∧
      entryOf (lit "k=" ++ v) = some (lit "k", v) := by
    rcases List.mem_pair.mp hv with rfl | rfl <;> decide +kernel
  obtain ⟨hnewline, hsect, hentry⟩ := hline
  refine ⟨lit "k=" ++ v, ini.strSect, lit "k", hnewline, by decide, ?_⟩
  have hkey : cstr (lit "k") = lit "k" := by decide
  rw [IniStrMap.read, IniStrMap.read, cstr_eq_self hread.2, hkey,
    AnalyzeIni.get_line_entry hsect hentry hread.1, if_pos rfl]
  have hget : (ini'.line (lit "k=" ++ v)).map.get (mapKey ini.strSect (lit "k")) =
      ini.map.get (mapKey ini.strSect (lit "k")) := by
    by_cases hnil : ini'.strSect = []
    · simp only [AnalyzeIni.line, hsect, if_pos hnil, hmap]
    · rw [AnalyzeIni.get_line_entry hsect hentry hnil, if_neg, hmap]
      rw [mapKey_left_inj]
      exact hne.symm
  rw [hget]
  exact hnew.symm

end

/-! ### Comment lines -/

/-- A line whose first character that is no blank is `#`. -/
structure Comment where
  blanks : Str
  text : Str
  isBlank : ∀ b ∈ blanks, isBlank b
  newline : newline ∉ text

def Comment.line (c : Comment) : Str := c.blanks ++ 0x23 :: c.text

theorem Comment.newline_not_mem (c : Comment) : Common.newline ∉ c.line := by
  simp only [line, List.mem_append, List.mem_cons, not_or]
  exact ⟨fun h => absurd (c.isBlank _ h) (by decide), by decide, c.newline⟩

/-- Behind these lines a line has no effect: whatever lines follow, the same is read of the file
with the line and of the file without it, for every section and every key that does not begin with
`#`. -/
def NoEffect (pre : List Str) (l : Str) : Prop :=
  ∀ (post : List Str) (content content' : Str), content.splitOn newline = pre ++ post →
    content'.splitOn newline = pre ++ l :: post →
    ∀ psect pkey : Str, pkey.head? ≠ some 0x23 →
      (openConf content').2.read psect pkey = (openConf content).2.read psect pkey

/-- The line leaves the section in force, unless neither can be asked for; and it assigns nothing
that can be asked for, unless it has this value already. -/
def Effectless (ini : AnalyzeIni) (l : Str) : Prop :=
  (∀ s, sectionOf l = some s →
    s = ini.strSect ∨ ¬ Readable s ∧ ¬ Readable ini.strSect) ∧
  ∀ k v, sectionOf l = none → entryOf l = some (k, v) → ini.strSect ≠ [] →
    Asked (mapKey ini.strSect k) → ini.map.get (mapKey ini.strSect k) = v

theorem Effectless.agree {ini : AnalyzeIni} {l : Str} (h : Effectless ini l) :
    Agree (ini.line l) ini := by
  obtain ⟨hsect, hentry⟩ := h
  cases hs : sectionOf l with
  | some s =>
      have hline : ini.line l = { ini with strSect := s } := by simp only [AnalyzeIni.line, hs]
      rw [hline]
      exact ⟨hsect s hs, fun _ _ => rfl⟩
  | none =>
      refine ⟨.inl (by rw [AnalyzeIni.strSect_line, hs]; rfl), fun mapkey hasked => ?_⟩
      by_cases hnil : ini.strSect = []
      · simp only [AnalyzeIni.line, hs, if_pos hnil]
      · cases he : entryOf l with
        | none => simp only [AnalyzeIni.line, hs, if_neg hnil, he]
        | some e =>
            rw [AnalyzeIni.get_line_entry hs he hnil]
            split
            · rename_i heq
              rw [← heq] at hasked ⊢
              exact (hentry e.1 e.2 hs he hnil hasked).symm
            · rfl

theorem AnalyzeIni.lines_nil (ini : AnalyzeIni) : ini.lines [] = ini := rfl

theorem AnalyzeIni.lines_append (ini : AnalyzeIni) (ls ls' : List Str) :
    ini.lines (ls ++ ls') = (ini.lines ls).lines ls' := List.foldl_append

/-- The file of these lines. -/
theorem exists_content {ls : List Str} (hls : ∀ l ∈ ls, newline ∉ l) (hne : ls ≠ []) :
    ∃ content : Str, content.splitOn newline = ls :=
  ⟨[newline].intercalate ls, List.splitOn_intercalate newline hls hne⟩

/-- What no effect means for the state in which the line is met. -/
theorem NoEffect.read_eq {pre : List Str} {c : Comment} (h : NoEffect pre c.line)
    (post : List Str) (hpre : ∀ l ∈ pre ++ post, newline ∉ l) (hne : pre ++ post ≠ [])
    (psect : Str) {pkey : Str} (hkey : pkey.head? ≠ some 0x23) :
    (((AnalyzeIni.lines {} pre).line c.line).lines post).map.read psect pkey =
      ((AnalyzeIni.lines {} pre).lines post).map.read psect pkey := by
  have hline : ∀ l ∈ pre ++ c.line :: post, newline ∉ l := by
    intro l hl
    rcases List.mem_append.mp hl with hl | hl
    · exact hpre l (List.mem_append_left _ hl)
    · rcases List.mem_cons.mp hl with rfl | hl
      · exact c.newline_not_mem
      · exact hpre l (List.mem_append_right _ hl)
  obtain ⟨content, hcontent⟩ := exists_content hpre hne
  obtain ⟨content', hcontent'⟩ := exists_content hline (by simp)
  have hread := h post content content' hcontent hcontent' psect pkey hkey
  simp only [openConf, hcontent, hcontent', AnalyzeIni.lines_append] at hread
  exact hread

/-- **Which comment lines have no effect** behind the lines before them. -/
theorem noEffect_iff {pre : List Str} (hpre : ∀ l ∈ pre, newline ∉ l) (c : Comment) :
    NoEffect pre c.line ↔ Effectless (AnalyzeIni.lines {} pre) c.line := by
  constructor
  · intro h
    set ini := AnalyzeIni.lines {} pre with hini
    refine ⟨fun s hs => ?_, fun k v hs he hnil hasked => ?_⟩
    · -- a line that follows would tell the two sections apart
      have hline : ini.line c.line = { ini with strSect := s } := by
        simp only [AnalyzeIni.line, hs]
      by_contra hcontra
      obtain ⟨hne, hread⟩ := not_or.mp hcontra
      obtain ⟨l, psect, pkey, hnewline, hkey, hread⟩ : ∃ l psect pkey : Str, newline ∉ l ∧
          pkey.head? ≠ some 0x23 ∧
          ((ini.line c.line).line l).map.read psect pkey ≠ (ini.line l).map.read psect pkey := by
        rw [hline]
        by_cases hs' : Readable s
        · exact exists_line_read_ne rfl hs' hne
        · obtain ⟨l, psect, pkey, hnewline, hkey, hread⟩ :=
            @exists_line_read_ne ini { ini with strSect := s } rfl
              (by_contra fun hn => hread ⟨hs', hn⟩) (Ne.symm hne)
          exact ⟨l, psect, pkey, hnewline, hkey, hread.symm⟩
      refine hread (h.read_eq [l] ?_ (by simp) psect hkey)
      simpa [or_imp, forall_and] using ⟨hpre, hnewline⟩
    · obtain ⟨psect, pkey, hkey, heq⟩ := hasked
      have hne : pre ++ [] ≠ [] := by
        rw [List.append_nil]
        rintro rfl
        exact hnil rfl
      have hread := h.read_eq [] (by simpa using hpre) hne psect hkey
      rw [AnalyzeIni.lines_nil, AnalyzeIni.lines_nil, ← hini, IniStrMap.read, heq] at hread
      rw [IniStrMap.read, heq] at hread
      rw [AnalyzeIni.get_line_entry hs he hnil, if_pos rfl] at hread
      exact hread.symm
  · intro h post content content' hcontent hcontent' psect pkey hkey
    have hagree := h.agree.lines post
    simp only [openConf, hcontent, hcontent', AnalyzeIni.lines_append, IniStrMap.read]
    exact hagree.get _ ⟨psect, pkey, hkey, rfl⟩

/-- A comment with a `=` and text in Shift_JIS. -/
theorem noEffect_iff_text :
    NoEffect [lit "[s]"] (lit " # x = \x7a" ++ [0x83, 0x5c]) ↔
      Effectless (AnalyzeIni.lines {} [lit "[s]"]) (lit " # x = \x7a" ++ [0x83, 0x5c]) :=
  noEffect_iff (by decide +kernel)
    ⟨lit " ", lit " x = \x7a" ++ [0x83, 0x5c], by decide +kernel, by decide +kernel⟩

/-- A comment with brackets takes the lines behind it out of their section. -/
theorem not_noEffect_brackets : ¬ NoEffect [lit "[s]"] (lit "# [x]") := by
  intro h
  have hread := h [lit "k=v"] (lit "[s]\nk=v") (lit "[s]\n# [x]\nk=v") (by decide +kernel)
    (by decide +kernel) (lit "s") (lit "k") (by decide)
  exact absurd hread (by decide +kernel)

end Realwork.Common
