import Mathlib.Data.List.DropRight
import Mathlib.Data.List.GetD
import Mathlib.Data.List.Infix
import Mathlib.Tactic.Common

/-!
# Paths of file URLs

What the URL standard makes of the text after `file://`: a host up to the first
separator, then a path whose segments are percent-encoded and whose dot segments
are resolved. `parsePath_iff` says for which texts the path has the components of
the text itself.
-/

namespace Lib.FileUrl

/-- The characters that are percent-encoded in a path, which differ between versions of the
standard, and the hosts that are accepted. -/
structure Rules where
  encodes : Char → Bool
  host : List Char → Bool
  encodes_control : ∀ c, c.toNat ≤ 32 → encodes c = true
  encodes_query : encodes '?' = true
  encodes_hash : encodes '#' = true
  plain : ∀ c, c = '/' ∨ c = '.' ∨ c = ':' ∨ c = '%' ∨ c.isAlphanum = true → encodes c = false

def hexDigits : List Char := "0123456789ABCDEF".toList

def percentEncode (c : Char) : List Char :=
  (String.utf8EncodeChar c).flatMap fun b =>
    ['%', hexDigits.getD (b.toNat / 16) '0', hexDigits.getD (b.toNat % 16) '0']

variable (U : Rules)

def encode (c : Char) : List Char := if U.encodes c then percentEncode c else [c]

/-! ## Segments -/

/-- A dot as it is or percent-encoded, at the start. -/
def stripDot : List Char → Option (List Char)
  | '.' :: cs => some cs
  | '%' :: '2' :: 'e' :: cs => some cs
  | '%' :: '2' :: 'E' :: cs => some cs
  | _ => none

def isSingleDot (segment : List Char) : Bool := stripDot segment = some []

def isDoubleDot (segment : List Char) : Bool := (stripDot segment).bind stripDot = some []

/-- A letter and a bar. -/
def isBarDrive : List Char → Bool
  | [c, '|'] => c.isAlpha
  | _ => false

def isColonDrive : List Char → Bool
  | [c, ':'] => c.isAlpha
  | _ => false

/-- The first segment of a path that is a drive letter ends in a colon. -/
def normalizeDrive (path : List (List Char)) (segment : List Char) : List Char :=
  if path = [] ∧ isBarDrive segment then segment.take 1 ++ [':'] else segment

/-- A drive letter stays. -/
def shorten : List (List Char) → List (List Char)
  | [segment] => if isColonDrive segment then [segment] else []
  | path => path.dropLast

/-- A segment that ends at a separator. -/
def push (path : List (List Char)) (segment : List Char) : List (List Char) :=
  if isDoubleDot segment then shorten path
  else if isSingleDot segment then path
  else path ++ [normalizeDrive path segment]

/-- A segment that ends with the path. -/
def finish (path : List (List Char)) (segment : List Char) : List (List Char) :=
  if isDoubleDot segment then shorten path ++ [[]]
  else if isSingleDot segment then path ++ [[]]
  else path ++ [normalizeDrive path segment]

/-! ## Parsing -/

def pathState (path : List (List Char)) (buffer : List Char) : List Char → List (List Char)
  | [] => finish path buffer
  | c :: cs =>
    if c = '/' ∨ c = '\\' then pathState (push path buffer) [] cs
    else if c = '?' ∨ c = '#' then finish path buffer
    else pathState path (buffer ++ encode U c) cs

def pathStart : List Char → List (List Char)
  | [] => pathState U [] [] []
  | c :: cs => if c = '/' ∨ c = '\\' then pathState U [] [] cs else pathState U [] [] (c :: cs)

def endsHost (c : Char) : Bool := c = '/' || c = '\\' || c = '?' || c = '#'

def fileHost (text : List Char) : Option (List (List Char)) :=
  let buffer := text.takeWhile fun c => !endsHost c
  let rest := text.dropWhile fun c => !endsHost c
  if isBarDrive buffer || isColonDrive buffer then some (pathState U [] buffer rest)
  else if buffer = [] then some (pathStart U rest)
  else if U.host buffer then some (pathStart U rest)
  else none

/-- Without trailing blanks and without tabs and newlines. -/
def clean (text : List Char) : List Char :=
  (text.rdropWhile fun c => c.toNat ≤ 32).filter fun c => !(c = '\t' || c = '\n' || c = '\r')

def serializePath (path : List (List Char)) : List Char := path.flatMap fun s => '/' :: s

/-- The path of the URL `file://` followed by `text`. -/
def parsePath (text : List Char) : Option (List Char) := (fileHost U (clean text)).map serializePath

/-! ## Components -/

/-- The segments that name something. -/
def components (segments : List (List Char)) : List (List Char) :=
  segments.filter fun s => s ≠ [] ∧ s ≠ ['.']

/-- Two paths are the same when they are absolute or not together and their components agree;
a relative path keeps a leading dot. -/
def SamePath (p q : List Char) : Prop :=
  p.head? = some '/' ∧ q.head? = some '/' ∧
      components (p.splitOn '/') = components (q.splitOn '/') ∨
    p.head? ≠ some '/' ∧ q.head? ≠ some '/' ∧
      (p.splitOn '/').head? = (q.splitOn '/').head? ∧
      components (p.splitOn '/') = components (q.splitOn '/')

/-! ## What comes out -/

/-- A character that a path keeps. -/
def Kept (c : Char) : Prop := U.encodes c = false ∧ c ≠ '\\'

variable {U}

theorem mem_hexDigits {c : Char} (h : c ∈ hexDigits) : c.isAlphanum = true ∧ c ≠ '/' := by
  have hall : (hexDigits.all fun d => d.isAlphanum && d != '/') = true := by decide
  simpa using List.all_eq_true.1 hall c h

theorem getD_mem_hexDigits (n : Nat) : hexDigits.getD n '0' ∈ hexDigits := by
  by_cases h : n < hexDigits.length
  · rw [List.getD_eq_getElem _ _ h]
    exact List.getElem_mem h
  · rw [List.getD_eq_default _ _ (Nat.le_of_not_lt h)]
    decide

theorem mem_percentEncode {c d : Char} (h : d ∈ percentEncode c) :
    d = '%' ∨ d ∈ hexDigits := by
  obtain ⟨b, -, hb⟩ := List.mem_flatMap.1 h
  simp only [List.mem_cons, List.not_mem_nil, or_false] at hb
  rcases hb with rfl | rfl | rfl
  · exact .inl rfl
  · exact .inr (getD_mem_hexDigits _)
  · exact .inr (getD_mem_hexDigits _)

theorem mem_encode {c d : Char} (hc : c ≠ '/' ∧ c ≠ '\\') (h : d ∈ encode U c) :
    Kept U d ∧ d ≠ '/' := by
  unfold encode at h
  split at h
  · rcases mem_percentEncode h with rfl | hd
    · exact ⟨⟨U.plain '%' (by simp), by decide⟩, by decide⟩
    · obtain ⟨ha, hs⟩ := mem_hexDigits hd
      refine ⟨⟨U.plain d (.inr (.inr (.inr (.inr ha)))), ?_⟩, hs⟩
      rintro rfl
      exact absurd ha (by decide)
  · rename_i he
    rw [List.mem_singleton.1 h]
    exact ⟨⟨by simpa using he, hc.2⟩, hc.1⟩

theorem isBarDrive_iff {segment : List Char} :
    isBarDrive segment = true ↔ ∃ c, segment = [c, '|'] ∧ c.isAlpha = true := by
  constructor
  · intro h
    unfold isBarDrive at h
    split at h
    · exact ⟨_, rfl, h⟩
    · cases h
  · rintro ⟨c, rfl, h⟩
    exact h

/-- What a path segment is made of. -/
structure Segment (U : Rules) (segment : List Char) : Prop where
  kept : ∀ c ∈ segment, Kept U c ∧ c ≠ '/'
  notSingle : isSingleDot segment = false
  notDouble : isDoubleDot segment = false

theorem segment_nil : Segment U [] :=
  ⟨by simp, rfl, rfl⟩

theorem segment_normalizeDrive {path : List (List Char)} {segment : List Char}
    (h : Segment U segment) : Segment U (normalizeDrive path segment) := by
  unfold normalizeDrive
  split
  · rename_i hd
    obtain ⟨c, rfl, hc⟩ := isBarDrive_iff.1 hd.2
    have hdot : stripDot [c, ':'] = none := by
      unfold stripDot
      split
      · rename_i he
        cases he
        exact absurd hc (by decide)
      · rename_i he
        simp at he
      · rename_i he
        simp at he
      · rfl
    refine ⟨?_, ?_, ?_⟩
    · intro d hd
      have hd : d = c ∨ d = ':' := by simpa using hd
      rcases hd with rfl | rfl
      · exact h.kept d (.head _)
      · exact ⟨⟨U.plain ':' (by simp), by decide⟩, by decide⟩
    · show decide (stripDot [c, ':'] = some []) = false
      rw [hdot]
      rfl
    · show decide ((stripDot [c, ':']).bind stripDot = some []) = false
      rw [hdot]
      rfl
  · exact h

theorem mem_shorten {path : List (List Char)} {segment : List Char} (h : segment ∈ shorten path) :
    segment ∈ path := by
  unfold shorten at h
  split at h
  · split at h
    · exact h
    · cases h
  · exact List.mem_of_mem_dropLast h

theorem segments_push {path : List (List Char)} {buffer : List Char}
    (hp : ∀ s ∈ path, Segment U s) (hb : ∀ c ∈ buffer, Kept U c ∧ c ≠ '/') :
    ∀ s ∈ push path buffer, Segment U s := by
  intro s hs
  unfold push at hs
  split at hs
  · exact hp s (mem_shorten hs)
  · rename_i hd
    split at hs
    · exact hp s hs
    · rename_i hsd
      rcases List.mem_append.1 hs with hs | hs
      · exact hp s hs
      · rw [List.mem_singleton.1 hs]
        exact segment_normalizeDrive ⟨hb, by simpa using hsd, by simpa using hd⟩

theorem segments_finish {path : List (List Char)} {buffer : List Char}
    (hp : ∀ s ∈ path, Segment U s) (hb : ∀ c ∈ buffer, Kept U c ∧ c ≠ '/') :
    ∀ s ∈ finish path buffer, Segment U s := by
  intro s hs
  unfold finish at hs
  split at hs
  · rcases List.mem_append.1 hs with hs | hs
    · exact hp s (mem_shorten hs)
    · rw [List.mem_singleton.1 hs]
      exact segment_nil
  · rename_i hd
    split at hs
    · rcases List.mem_append.1 hs with hs | hs
      · exact hp s hs
      · rw [List.mem_singleton.1 hs]
        exact segment_nil
    · rename_i hsd
      rcases List.mem_append.1 hs with hs | hs
      · exact hp s hs
      · rw [List.mem_singleton.1 hs]
        exact segment_normalizeDrive ⟨hb, by simpa using hsd, by simpa using hd⟩

/-- Whatever is parsed, no segment of the path has a character that would be encoded or is
made of dots. -/
theorem segments_pathState {text : List Char} :
    ∀ {path : List (List Char)} {buffer : List Char}, (∀ s ∈ path, Segment U s) →
      (∀ c ∈ buffer, Kept U c ∧ c ≠ '/') → ∀ s ∈ pathState U path buffer text, Segment U s := by
  induction text with
  | nil => exact fun hp hb => segments_finish hp hb
  | cons c cs ih =>
    intro path buffer hp hb
    rw [pathState]
    split
    · exact ih (segments_push hp hb) (by simp)
    · rename_i hsep
      split
      · exact segments_finish hp hb
      · refine ih hp ?_
        intro d hd
        rcases List.mem_append.1 hd with hd | hd
        · exact hb d hd
        · exact mem_encode (not_or.1 hsep) hd

theorem finish_ne_nil {path : List (List Char)} {buffer : List Char} : finish path buffer ≠ [] := by
  unfold finish
  split
  · simp
  · split <;> simp

theorem pathState_ne_nil {text : List Char} :
    ∀ {path : List (List Char)} {buffer : List Char}, pathState U path buffer text ≠ [] := by
  induction text with
  | nil => exact finish_ne_nil
  | cons c cs ih =>
    intro path buffer
    rw [pathState]
    split
    · exact ih
    · split
      · exact finish_ne_nil
      · exact ih

/-! ## What stays the same -/

/-- The path that the segments of a text without characters to encode end up as. -/
def resolve (path : List (List Char)) : List (List Char) → List (List Char)
  | [] => path
  | [s] => finish path s
  | s :: ss => resolve (push path s) ss

theorem ne_of_kept {c : Char} (h : Kept U c ∧ c ≠ '/') :
    ¬(c = '/' ∨ c = '\\') ∧ ¬(c = '?' ∨ c = '#') := by
  refine ⟨not_or.2 ⟨h.2, h.1.2⟩, not_or.2 ⟨?_, ?_⟩⟩
  · rintro rfl
    exact absurd h.1.1 (by rw [U.encodes_query]; decide)
  · rintro rfl
    exact absurd h.1.1 (by rw [U.encodes_hash]; decide)

theorem pathState_append {segment rest : List Char} (h : ∀ c ∈ segment, Kept U c ∧ c ≠ '/') :
    ∀ {path : List (List Char)} {buffer : List Char},
      pathState U path buffer (segment ++ rest) = pathState U path (buffer ++ segment) rest := by
  induction segment with
  | nil =>
    intro path buffer
    rw [List.nil_append, List.append_nil]
  | cons c cs ih =>
    intro path buffer
    have hc := h c (.head _)
    have hne := ne_of_kept hc
    have he : encode U c = [c] := by
      unfold encode
      rw [hc.1.1]
      rfl
    rw [List.cons_append, pathState, if_neg hne.1, if_neg hne.2, he,
      ih fun d hd => h d (.tail _ hd), List.append_assoc]
    rfl

theorem intercalate_slash_cons (s t : List Char) (ts : List (List Char)) :
    ['/'].intercalate (s :: t :: ts) = s ++ '/' :: ['/'].intercalate (t :: ts) := by
  simp [List.intercalate]

theorem pathState_intercalate {ss : List (List Char)} (hn : ss ≠ [])
    (h : ∀ s ∈ ss, ∀ c ∈ s, Kept U c ∧ c ≠ '/') :
    ∀ {path : List (List Char)}, pathState U path [] (['/'].intercalate ss) = resolve path ss := by
  induction ss with
  | nil => exact absurd rfl hn
  | cons s ss ih =>
    intro path
    cases ss with
    | nil =>
      have hs : pathState U path [] (s ++ []) = pathState U path ([] ++ s) [] :=
        pathState_append (h s (.head _))
      rw [List.append_nil, List.nil_append] at hs
      rw [List.intercalate_singleton, hs]
      rfl
    | cons t ts =>
      rw [intercalate_slash_cons, pathState_append (h s (.head _)), pathState, if_pos (.inl rfl)]
      exact ih (by simp) fun u hu => h u (.tail _ hu)

/-- Of the segments made of dots only the plain single dot is there. -/
def DotsPlain (ss : List (List Char)) : Prop :=
  ∀ s ∈ ss, isDoubleDot s = false ∧ (isSingleDot s = true → s = ['.'])

/-- The first segment that is no dot. -/
def firstSegment (ss : List (List Char)) : Option (List Char) :=
  (ss.filter fun s => s ≠ ['.']).head?

theorem components_append (ss ts : List (List Char)) :
    components (ss ++ ts) = components ss ++ components ts := List.filter_append _ _

theorem components_singleton_dot : components [['.']] = [] := by decide

theorem normalizeDrive_of_ne {path : List (List Char)} {s : List Char}
    (h : path = [] → isBarDrive s = false) : normalizeDrive path s = s := by
  unfold normalizeDrive
  rw [if_neg]
  rintro ⟨hp, hd⟩
  rw [h hp] at hd
  cases hd

/-- Without a drive letter in front, dots are all that resolving takes out. -/
theorem components_resolve {ss : List (List Char)} (hn : ss ≠ []) (hd : DotsPlain ss) :
    ∀ {path : List (List Char)},
      (path = [] → ∀ s, firstSegment ss = some s → isBarDrive s = false) →
      components (resolve path ss) = components path ++ components ss := by
  induction ss with
  | nil => exact absurd rfl hn
  | cons s ss ih =>
    intro path hdrive
    obtain ⟨hdd, hsd⟩ := hd s (.head _)
    have hstep : ∀ {path' : List (List Char)}, path' = push path s →
        components path' = components path ++ components [s] := by
      rintro _ rfl
      unfold push
      rw [if_neg (by rw [hdd]; decide)]
      split
      · rename_i h
        rw [hsd h, components_singleton_dot, List.append_nil]
      · rename_i h
        have hs : s ≠ ['.'] := by
          rintro rfl
          exact h rfl
        rw [normalizeDrive_of_ne fun hp => hdrive hp s (by simp [firstSegment, hs]),
          components_append]
    cases ss with
    | nil =>
      rw [resolve, finish, if_neg (by rw [hdd]; decide)]
      split
      · rename_i h
        rw [hsd h, components_append, components_singleton_dot]
        rfl
      · rename_i h
        have hs : s ≠ ['.'] := by
          rintro rfl
          exact h rfl
        rw [normalizeDrive_of_ne fun hp => hdrive hp s (by simp [firstSegment, hs]),
          components_append]
    | cons t ts =>
      have hdrive' : push path s = [] →
          ∀ u, firstSegment (t :: ts) = some u → isBarDrive u = false := by
        intro hp u hu
        unfold push at hp
        rw [if_neg (by rw [hdd]; decide)] at hp
        split at hp
        · rename_i h
          refine hdrive hp u ?_
          rw [hsd h]
          simpa [firstSegment] using hu
        · simp at hp
      have hrest := ih (by simp) (fun u hu => hd u (.tail _ hu)) hdrive'
      rw [resolve, hrest, hstep rfl, List.append_assoc, ← components_append]
      · rfl
      · simp

theorem resolve_head {ss : List (List Char)} (hd : DotsPlain ss) :
    ∀ {path : List (List Char)} {s : List Char}, path.head? = some s →
      (resolve path ss).head? = some s := by
  induction ss with
  | nil => exact fun h => h
  | cons t ts ih =>
    intro path s h
    obtain ⟨hdd, -⟩ := hd t (.head _)
    have happ : ∀ u : List Char, (path ++ [u]).head? = some s := by
      intro u
      rw [List.head?_append, h]
      rfl
    have hpush : (push path t).head? = some s := by
      unfold push
      rw [if_neg (by rw [hdd]; decide)]
      split
      · exact h
      · exact happ _
    cases ts with
    | nil =>
      rw [resolve, finish, if_neg (by rw [hdd]; decide)]
      split <;> exact happ _
    | cons u us =>
      rw [resolve]
      · exact ih (fun v hv => hd v (.tail _ hv)) hpush
      · simp

/-- A drive letter in front gets another form. -/
theorem resolve_drive {ss : List (List Char)} (hd : DotsPlain ss) {s : List Char}
    (hs : firstSegment ss = some s) (hdrive : isBarDrive s = true) :
    (resolve [] ss).head? = some (s.take 1 ++ [':']) := by
  induction ss with
  | nil => cases hs
  | cons t ts ih =>
    obtain ⟨hdd, hsd⟩ := hd t (.head _)
    by_cases ht : t = ['.']
    · subst ht
      have hs' : firstSegment ts = some s := by simpa [firstSegment] using hs
      cases ts with
      | nil => cases hs'
      | cons u us =>
        rw [resolve]
        · exact ih (fun v hv => hd v (.tail _ hv)) hs'
        · simp
    · have hts : t = s := by simpa [firstSegment, ht] using hs
      subst hts
      have hnd : isSingleDot t = false := by
        by_contra h
        exact ht (hsd (by simpa using h))
      have hnorm : normalizeDrive [] t = t.take 1 ++ [':'] := by
        unfold normalizeDrive
        rw [if_pos ⟨rfl, hdrive⟩]
      have hpush : push [] t = [t.take 1 ++ [':']] := by
        unfold push
        rw [if_neg (by rw [hdd]; decide), if_neg (by rw [hnd]; decide), hnorm]
        rfl
      cases ts with
      | nil =>
        rw [resolve, finish, if_neg (by rw [hdd]; decide), if_neg (by rw [hnd]; decide), hnorm]
        rfl
      | cons u us =>
        rw [resolve, hpush]
        · exact resolve_head (fun v hv => hd v (.tail _ hv)) rfl
        · simp

/-! ## Texts whose path is their own -/

variable (U)

structure Plain (text : List Char) : Prop where
  absolute : text.head? = some '/'
  kept : ∀ c ∈ text, Kept U c
  dots : ∀ s ∈ components (text.splitOn '/'), isSingleDot s = false ∧ isDoubleDot s = false
  drive : ∀ s, firstSegment (text.splitOn '/').tail = some s → isBarDrive s = false

variable {U}

theorem serializePath_cons (s : List Char) (ss : List (List Char)) :
    serializePath (s :: ss) = '/' :: ['/'].intercalate (s :: ss) := by
  induction ss generalizing s with
  | nil => simp [serializePath]
  | cons t ts ih =>
    rw [intercalate_slash_cons, ← ih t]
    rfl

theorem splitOn_slash_cons (rest : List Char) :
    ('/' :: rest).splitOn '/' = [] :: rest.splitOn '/' := by
  have h := List.splitOn_append_cons_self (a := '/') [] rest
  simpa using h

theorem splitOn_serializePath {path : List (List Char)} (hn : path ≠ [])
    (h : ∀ s ∈ path, Segment U s) : (serializePath path).splitOn '/' = [] :: path := by
  cases path with
  | nil => exact absurd rfl hn
  | cons s ss =>
    rw [serializePath_cons, splitOn_slash_cons, List.splitOn_intercalate '/' _ (by simp)]
    intro t ht hc
    exact ((h t ht).kept '/' hc).2 rfl

theorem components_nil_cons (ss : List (List Char)) : components ([] :: ss) = components ss := rfl

theorem notMem_of_mem_splitOn {text s : List Char} (h : s ∈ text.splitOn '/') : '/' ∉ s := by
  induction text generalizing s with
  | nil =>
    rw [List.splitOn_nil, List.mem_singleton] at h
    rw [h]
    exact List.not_mem_nil
  | cons c cs ih =>
    by_cases hc : c = '/'
    · subst hc
      rw [splitOn_slash_cons] at h
      rcases List.mem_cons.1 h with rfl | h
      · exact List.not_mem_nil
      · exact ih h
    · have hsplit : (c :: cs).splitOn '/' = (cs.splitOn '/').modifyHead (c :: ·) := by
        have h' := List.splitOnP_cons_eq_if_modifyHead (p := fun x => x == '/') c cs
        rw [if_neg (by simpa using hc)] at h'
        exact h'
      rw [hsplit] at h
      cases hcs : cs.splitOn '/' with
      | nil =>
        rw [hcs] at h
        cases h
      | cons t ts =>
        rw [hcs, List.modifyHead_cons] at h
        rcases List.mem_cons.1 h with rfl | h
        · intro hm
          rcases List.mem_cons.1 hm with he | hm
          · exact hc he.symm
          · exact ih (s := t) (by rw [hcs]; exact .head _) hm
        · exact ih (by rw [hcs]; exact .tail _ h)

theorem mem_intercalate_slash {ss : List (List Char)} {s : List Char} {c : Char} (hs : s ∈ ss)
    (hc : c ∈ s) : c ∈ ['/'].intercalate ss := by
  induction ss with
  | nil => cases hs
  | cons t ts ih =>
    cases ts with
    | nil =>
      rw [List.intercalate_singleton]
      rwa [List.mem_singleton.1 hs] at hc
    | cons u us =>
      rw [intercalate_slash_cons, List.mem_append, List.mem_cons]
      rcases List.mem_cons.1 hs with rfl | hs
      · exact .inl hc
      · exact .inr (.inr (ih hs))

/-- The characters of a text are separators or in one of its segments. -/
theorem mem_splitOn_of_mem {text : List Char} {c : Char} (h : c ∈ text) (hc : c ≠ '/') :
    ∃ s ∈ text.splitOn '/', c ∈ s := by
  rw [← (List.intercalate_splitOn '/' : _ = text)] at h
  generalize text.splitOn '/' = ss at h ⊢
  induction ss with
  | nil => cases h
  | cons s ss ih =>
    cases ss with
    | nil =>
      rw [List.intercalate_singleton] at h
      exact ⟨s, .head _, h⟩
    | cons t ts =>
      rw [intercalate_slash_cons, List.mem_append, List.mem_cons] at h
      rcases h with h | h | h
      · exact ⟨s, .head _, h⟩
      · exact absurd h hc
      · obtain ⟨u, hu, hcu⟩ := ih h
        exact ⟨u, .tail _ hu, hcu⟩

theorem exists_clean_cons (rest : List Char) : ∃ rest', clean ('/' :: rest) = '/' :: rest' := by
  unfold clean
  have hpre := List.rdropWhile_prefix (fun c : Char => decide (c.toNat ≤ 32)) ('/' :: rest)
  cases hd : List.rdropWhile (fun c : Char => decide (c.toNat ≤ 32)) ('/' :: rest) with
  | nil =>
    rw [List.rdropWhile_eq_nil_iff] at hd
    exact absurd (hd '/' (.head _)) (by decide)
  | cons c cs =>
    rw [hd, List.cons_prefix_cons] at hpre
    rw [hpre.1]
    exact ⟨_, rfl⟩

theorem clean_of_kept {text : List Char} (h : ∀ c ∈ text, Kept U c) : clean text = text := by
  have hbig : ∀ c ∈ text, ¬ c.toNat ≤ 32 := by
    intro c hc hle
    exact absurd (h c hc).1 (by rw [U.encodes_control c hle]; decide)
  unfold clean
  have hdrop : List.rdropWhile (fun c : Char => decide (c.toNat ≤ 32)) text = text := by
    rw [List.rdropWhile_eq_self_iff]
    intro hl
    simpa using hbig _ (List.getLast_mem hl)
  rw [hdrop, List.filter_eq_self]
  intro c hc
  have hc := hbig c hc
  simp only [Bool.not_eq_true', Bool.or_eq_false_iff, decide_eq_false_iff_not]
  refine ⟨⟨?_, ?_⟩, ?_⟩ <;> (rintro rfl; exact hc (by decide))

theorem fileHost_slash (rest : List Char) :
    fileHost U ('/' :: rest) = some (pathState U [] [] rest) := rfl

theorem pathStart_ne_nil {text : List Char} : pathStart U text ≠ [] := by
  unfold pathStart
  split
  · exact pathState_ne_nil
  · split <;> exact pathState_ne_nil

theorem fileHost_ne_nil {text : List Char} {path : List (List Char)}
    (h : fileHost U text = some path) : path ≠ [] := by
  unfold fileHost at h
  dsimp only at h
  split at h
  · cases h
    exact pathState_ne_nil
  · split at h
    · cases h
      exact pathStart_ne_nil
    · split at h
      · cases h
        exact pathStart_ne_nil
      · cases h

theorem head_serializePath {path : List (List Char)} (h : path ≠ []) :
    (serializePath path).head? = some '/' := by
  cases path with
  | nil => exact absurd rfl h
  | cons s ss => rw [serializePath_cons, List.head?_cons]

theorem head_components {ss : List (List Char)} {s : List Char} (h : firstSegment ss = some s)
    (hs : s ≠ []) : (components ss).head? = some s := by
  have he : components ss = (ss.filter fun t => t ≠ ['.']).filter fun t => t ≠ [] := by
    rw [List.filter_filter]
    refine List.filter_congr ?_
    intro t _
    simp
  unfold firstSegment at h
  rw [he]
  cases hf : ss.filter fun t => t ≠ ['.'] with
  | nil =>
    rw [hf] at h
    cases h
  | cons t ts =>
    rw [hf, List.head?_cons] at h
    cases h
    rw [List.filter_cons_of_pos (by simpa using hs), List.head?_cons]

/-- Only absolute texts can come back, and with segments as a path has them. -/
theorem SamePath.segments {text out : List Char} (hp : parsePath U text = some out)
    (h : SamePath out text) : ∃ rest path, text = '/' :: rest ∧ (∀ s ∈ path, Segment U s) ∧
      fileHost U (clean text) = some path ∧ components path = components (rest.splitOn '/') := by
  obtain ⟨path, hpath, rfl⟩ := Option.map_eq_some_iff.1 hp
  have hne := fileHost_ne_nil hpath
  rcases h with ⟨-, habs, hc⟩ | ⟨hrel, -⟩
  · obtain ⟨rest, rfl⟩ : ∃ rest, text = '/' :: rest := by
      cases text with
      | nil => cases habs
      | cons c cs => exact ⟨cs, by rw [Option.some.inj habs]⟩
    obtain ⟨rest', hrest'⟩ := exists_clean_cons rest
    have hsegs : ∀ s ∈ path, Segment U s := by
      rw [hrest', fileHost_slash] at hpath
      cases hpath
      exact segments_pathState (by simp) (by simp)
    refine ⟨rest, path, rfl, hsegs, hpath, ?_⟩
    rwa [splitOn_serializePath hne hsegs, splitOn_slash_cons, components_nil_cons,
      components_nil_cons] at hc
  · exact absurd (head_serializePath hne) hrel

theorem dotsPlain_of_components {ss : List (List Char)}
    (h : ∀ s ∈ components ss, isSingleDot s = false ∧ isDoubleDot s = false) : DotsPlain ss := by
  intro s hs
  by_cases hc : s ≠ [] ∧ s ≠ ['.']
  · have hd := h s (List.mem_filter.2 ⟨hs, by simpa using hc⟩)
    refine ⟨hd.2, fun hsd => ?_⟩
    rw [hd.1] at hsd
    cases hsd
  · rcases Decidable.not_and_iff_or_not.1 hc with hc | hc
    · rw [not_not.1 hc]
      exact ⟨rfl, fun hsd => by cases hsd⟩
    · rw [not_not.1 hc]
      exact ⟨by decide, fun _ => rfl⟩

/-- The path of a text in which nothing is encoded. -/
theorem fileHost_of_kept {rest : List Char} (h : ∀ c ∈ '/' :: rest, Kept U c) :
    fileHost U (clean ('/' :: rest)) = some (resolve [] (rest.splitOn '/')) := by
  have hsegs : ∀ s ∈ rest.splitOn '/', ∀ c ∈ s, Kept U c ∧ c ≠ '/' := by
    intro s hs c hc
    refine ⟨h c (.tail _ ?_), fun he => notMem_of_mem_splitOn hs (he ▸ hc)⟩
    rw [← (List.intercalate_splitOn '/' : _ = rest)]
    exact mem_intercalate_slash hs hc
  rw [clean_of_kept h, fileHost_slash,
    ← pathState_intercalate (List.splitOn_ne_nil _ _) hsegs, List.intercalate_splitOn]

/-- The parsed path is the text, as a path, exactly for plain texts. -/
theorem parsePath_iff {text : List Char} :
    (∃ out, parsePath U text = some out ∧ SamePath out text) ↔ Plain U text := by
  constructor
  · rintro ⟨out, hp, hsame⟩
    obtain ⟨rest, path, rfl, hsegs, hpath, hcomp⟩ := hsame.segments hp
    have hin : ∀ s ∈ components (rest.splitOn '/'), Segment U s := by
      intro s hs
      rw [← hcomp] at hs
      exact hsegs s (List.mem_of_mem_filter hs)
    have hkept : ∀ c ∈ '/' :: rest, Kept U c := by
      intro c hc
      by_cases hslash : c = '/'
      · subst hslash
        exact ⟨U.plain '/' (.inl rfl), by decide⟩
      · have hc := (List.mem_cons.1 hc).resolve_left hslash
        obtain ⟨s, hs, hcs⟩ := mem_splitOn_of_mem hc hslash
        by_cases hcs' : s ≠ [] ∧ s ≠ ['.']
        · exact ((hin s (List.mem_filter.2 ⟨hs, by simpa using hcs'⟩)).kept c hcs).1
        · rcases Decidable.not_and_iff_or_not.1 hcs' with he | he
          · rw [not_not.1 he] at hcs
            cases hcs
          · rw [not_not.1 he, List.mem_singleton] at hcs
            subst hcs
            exact ⟨U.plain '.' (by simp), by decide⟩
    have hdots : ∀ s ∈ components (rest.splitOn '/'), isSingleDot s = false ∧ isDoubleDot s = false :=
      fun s hs => ⟨(hin s hs).notSingle, (hin s hs).notDouble⟩
    refine ⟨rfl, hkept, ?_, ?_⟩
    · rwa [splitOn_slash_cons, components_nil_cons]
    · rw [splitOn_slash_cons, List.tail_cons]
      intro s hs
      by_contra hdrive
      have hdrive : isBarDrive s = true := by simpa using hdrive
      have hres : path = resolve [] (rest.splitOn '/') :=
        Option.some.inj (hpath.symm.trans (fileHost_of_kept hkept))
      have hplain := dotsPlain_of_components hdots
      have hhead := resolve_drive hplain hs hdrive
      rw [← hres] at hhead
      obtain ⟨c, rfl, -⟩ := isBarDrive_iff.1 hdrive
      -- the first component would have to end in a colon and in a bar
      have hleft : (components path).head? = some [c, ':'] := by
        cases path with
        | nil => cases hhead
        | cons t ts =>
          rw [List.head?_cons] at hhead
          rw [Option.some.inj hhead]
          simp [components]
      have hright := head_components hs (by simp)
      rw [hcomp, hright] at hleft
      simp at hleft
  · intro h
    obtain ⟨rest, rfl⟩ : ∃ rest, text = '/' :: rest := by
      have habs := h.absolute
      cases text with
      | nil => cases habs
      | cons c cs => exact ⟨cs, by rw [Option.some.inj habs]⟩
    have hdots := h.dots
    have hdrive := h.drive
    rw [splitOn_slash_cons] at hdots hdrive
    have hpath := fileHost_of_kept h.kept
    have hne := fileHost_ne_nil hpath
    have hsegs : ∀ s ∈ resolve [] (rest.splitOn '/'), Segment U s := by
      obtain ⟨rest', hrest'⟩ := exists_clean_cons rest
      rw [hrest', fileHost_slash] at hpath
      rw [← Option.some.inj hpath]
      exact segments_pathState (by simp) (by simp)
    refine ⟨_, by rw [parsePath, hpath]; rfl, .inl ⟨head_serializePath hne, rfl, ?_⟩⟩
    rw [splitOn_serializePath hne hsegs, splitOn_slash_cons, components_nil_cons,
      components_nil_cons, components_resolve (List.splitOn_ne_nil _ _)
        (dotsPlain_of_components hdots) fun _ => hdrive]
    rfl

end Lib.FileUrl
