import Tierkreis.Executor.JobScript
import Tierkreis.Lib.Shell

/-!
# The environment of a job

What the readers of a script make of its environment lines. The shell runs the
exports of a Slurm script, `qsub` takes the variable list of a PBS script apart
at its commas, and `pjsub` reads one quoted pair a line.
-/

namespace Tierkreis

open Lib Lib.Shell

/-- A name that an environment variable can have. -/
abbrev IsIdentifier (name : String) : Prop := IsName name.toList

namespace JobScript

/-! ## What the readers read -/

/-- The command that sets and exports a variable. -/
def exportCommand (e : String × String) : List Word :=
  ["export".toList, e.1.toList ++ '=' :: e.2.toList]

def moduleCommand (m : String) : List Word := ["module".toList, "load".toList, m.toList]

/-- The shell comes to the last line of the script, the job's command, after one export for each
variable, of exactly its value, and after nothing else but the module commands. -/
def SlurmDelivers (job : JobSpec) : Prop :=
  ∃ text, (slurm job).toList = text ++ (lines [commandLine job]).toList ∧
    read {} text =
      some ⟨job.environment.toList.map exportCommand ++ job.modules.map moduleCommand, [], .blank⟩

/-- The items of a variable list, and what follows its line. A blank ends the list, and quotes
and backslashes change what a comma means: there the text is not a plain list. -/
def readList (item : List Char) : List Char → Option (List (List Char) × List Char)
  | [] => none
  | c :: rest =>
    if c = '\n' then some ([item], rest)
    else if c = ',' then (readList [] rest).map fun r => (item :: r.1, r.2)
    else if c = ' ' ∨ c = '\t' ∨ c = '\x27' ∨ c = '"' ∨ c = '\\' then none
    else readList (item ++ [c]) rest

/-- One item for each variable, and the rest of the script as the template has it. -/
def PbsDelivers (job : JobSpec) : Prop :=
  job.environment.toList = [] ∨
    ∃ text, (pbs job).toList = (lines (pbsHeader job)).toList ++ "#PBS -v ".toList ++ text ∧
      readList [] text = some (job.environment.toList.map fun e => (pbsItem e).toList,
        (lines (pbsRest job)).toList)

/-- A text in double quotes on one line, and what follows it. -/
def readQuoted : List Char → Option (List Char × List Char)
  | [] => none
  | c :: rest =>
    if c = '"' then some ([], rest)
    else if c = '\n' then none
    else (readQuoted rest).map fun r => (c :: r.1, r.2)

/-- The lines `#PJM -x "name"="value"` that a text begins with, and what follows them. -/
def readPairs : Nat → List Char → Option (List (List Char × List Char) × List Char)
  | 0, text => some ([], text)
  | n + 1, text => do
    let text ← "#PJM -x \"".toList.isPrefixOf? text
    let (name, text) ← readQuoted text
    let text ← "=\"".toList.isPrefixOf? text
    let (value, text) ← readQuoted text
    let text ← "\n".toList.isPrefixOf? text
    let (pairs, text) ← readPairs n text
    return ((name, value) :: pairs, text)

def PjsubDelivers (job : JobSpec) : Prop :=
  ∃ text, (pjsub job).toList = (lines (pjsubHeader job)).toList ++ text ∧
    readPairs job.environment.toList.length text =
      some (job.environment.toList.map fun e => (e.1.toList, e.2.toList),
        (lines (pjsubRest job)).toList)

/-- The job's environment comes through all three templates. -/
structure Delivers (job : JobSpec) : Prop where
  slurm : SlurmDelivers job
  pbs : PbsDelivers job
  pjsub : PjsubDelivers job

/-- A value that none of the templates has to quote. -/
structure Unquoted (value : String) : Prop where
  literal : Literal value.toList
  comma : ',' ∉ value.toList

/-! ## Lines -/

theorem toList_lines (l : List String) :
    (lines l).toList = l.flatMap fun line => line.toList ++ ['\n'] := by
  unfold lines
  rw [String.toList_join, List.flatMap_map]
  simp

theorem lines_append (l l' : List String) : lines (l ++ l') = lines l ++ lines l' :=
  String.toList_inj.1 (by rw [String.toList_append]; simp [toList_lines])

/-- A line that the shell passes over. -/
def IsComment (line : String) : Prop := line.toList = [] ∨ line.toList.head? = some '#'

variable {cs : List (List Word)} {ws : List Word}

theorem read_comments {l : List String} (h : ∀ line ∈ l, IsComment line)
    (hnl : ∀ line ∈ l, '\n' ∉ line.toList) :
    read ⟨cs, [], .blank⟩ (lines l).toList = some ⟨cs, [], .blank⟩ := by
  rw [toList_lines]
  induction l with
  | nil => rfl
  | cons line l ih =>
    rw [List.flatMap_cons, read_append,
      read_comment (hnl line List.mem_cons_self) (h line List.mem_cons_self), Option.bind_some]
    exact ih (fun a ha => h a (.tail _ ha)) fun a ha => hnl a (.tail _ ha)

theorem isComment_append {a : String} (h : a.toList.head? = some '#') (b : String) :
    (a ++ b).toList.head? = some '#' := by
  rw [String.toList_append, List.head?_append, h]
  rfl

theorem forall_mem_whenText {P : String → Prop} {value : Option String} {f : String → List String}
    (h : ∀ v, ∀ line ∈ f v, P line) : ∀ line ∈ whenText value f, P line := by
  unfold whenText
  split
  · simp
  · split
    · simp
    · exact h _

theorem forall_mem_whenNumber {P : String → Prop} {value : Option Nat} {f : String → List String}
    (h : ∀ v, ∀ line ∈ f v, P line) : ∀ line ∈ whenNumber value f, P line := by
  unfold whenNumber
  split
  · simp
  · split
    · simp
    · exact h _

theorem forall_mem_whenList {P : String → Prop} {value : Option (List String)}
    {f : String → List String} (h : ∀ v, ∀ line ∈ f v, P line) :
    ∀ line ∈ whenList value f, P line := by
  unfold whenList
  split
  · simp
  · split
    · simp
    · exact h _

/-- Everything before the environment is a comment to the shell. -/
theorem isComment_slurmHeader (job : JobSpec) : ∀ line ∈ slurmHeader job, IsComment line := by
  have hfield : ∀ {a : String}, a.toList.head? = some '#' → ∀ b : String,
      ∀ line ∈ [a ++ b], IsComment line := fun ha b => by
    rw [List.forall_mem_singleton]
    exact .inr (isComment_append ha b)
  have htitle : ∀ {a : String}, a.toList.head? = some '#' → ∀ line ∈ ["", a], IsComment line :=
    fun ha => by
      rw [List.forall_mem_cons, List.forall_mem_singleton]
      exact ⟨.inl rfl, .inr ha⟩
  have hadd : ∀ {l l' : List String}, (∀ line ∈ l, IsComment line) →
      (∀ line ∈ l', IsComment line) → ∀ line ∈ l ++ l', IsComment line :=
    fun h h' => List.forall_mem_append.2 ⟨h, h'⟩
  unfold slurmHeader
  refine hadd (hadd (hadd (hadd (hadd (hadd (hadd (hadd (hadd (hadd (hadd (hadd (hadd (hadd
    (hadd (hadd (hadd (hadd (hadd ?core ?cores) ?memory) ?gpus) ?gres) ?qpus) ?blank) ?queue)
      ?user) ?account) ?mail) ?output) ?error) ?out) ?mpi) ?proc) ?procs) ?arguments) ?extra)
        ?environment
  case core =>
    simp only [List.forall_mem_cons]
    refine ⟨.inr rfl, .inl rfl, .inr rfl, .inl rfl, .inr rfl, ?_⟩
    exact ⟨.inr (isComment_append rfl _), .inr (isComment_append rfl _),
      .inr (isComment_append rfl _), by simp⟩
  case cores => exact forall_mem_whenNumber fun n => hfield rfl n
  case memory =>
    exact forall_mem_whenNumber fun n => hfield (isComment_append rfl n) "G"
  case gpus => exact forall_mem_whenNumber fun n => hfield rfl n
  case gres => exact forall_mem_whenList fun l => hfield rfl l
  case qpus => exact forall_mem_whenList fun l => hfield rfl l
  case blank =>
    rw [List.forall_mem_singleton]
    exact .inl rfl
  case queue => exact forall_mem_whenText fun q => hfield rfl q
  case user => exact htitle rfl
  case account => exact forall_mem_whenText fun a => hfield rfl a
  case mail =>
    refine forall_mem_whenText fun m => ?_
    rw [List.forall_mem_cons]
    exact ⟨.inr rfl, hfield rfl m⟩
  case output => exact htitle rfl
  case error => exact forall_mem_whenText fun p => hfield rfl p
  case out => exact forall_mem_whenText fun p => hfield rfl p
  case mpi => exact htitle rfl
  case proc => exact forall_mem_whenText fun p => hfield rfl p
  case procs => exact forall_mem_whenText fun p => hfield rfl p
  case arguments => exact htitle rfl
  case extra =>
    rw [List.forall_mem_map]
    exact fun e _ => .inr (isComment_append rfl _)
  case environment => exact htitle rfl

/-! ## Slurm -/

theorem plainWord_name {n : String} (h : IsIdentifier n) : PlainWord (n.toList ++ ['=']) where
  ne_nil := by simp
  plain := by
    intro c hc
    rcases List.mem_append.1 hc with hc | hc
    · obtain ⟨hp, hpattern, ht, -⟩ := isPlain_of_isAlphanum ((h.chars c hc).imp id .inl)
      exact ⟨hp, hpattern, ht⟩
    · obtain rfl := List.mem_singleton.1 hc
      decide
  hash := by
    obtain ⟨c, l, hl⟩ := List.exists_cons_of_ne_nil h.ne_nil
    have hc := h.chars c (hl ▸ List.mem_cons_self)
    rw [hl]
    simpa using (isPlain_of_isAlphanum (hc.imp id .inl)).2.2.2

theorem read_space {w : Word} {f : Form} :
    read ⟨cs, ws, .word w f⟩ [' '] = some ⟨cs, ws ++ [w], .blank⟩ := by
  simp [read_cons, State.step, State.unquoted]

theorem read_newline {w : Word} {f : Form} :
    read ⟨cs, ws, .word w f⟩ ['\n'] = some ⟨cs ++ [ws ++ [w]], [], .blank⟩ := by
  simp [read_cons, State.step, State.unquoted, State.endCommand]

/-- Up to the value of an export. -/
theorem read_exportName {e : String × String} (hn : IsIdentifier e.1) :
    read ⟨cs, [], .blank⟩ ("export ".toList ++ (e.1.toList ++ ['='])) =
      some ⟨cs, ["export".toList], .word (e.1.toList ++ ['=']) .begins⟩ := by
  have hexport : PlainWord "export".toList := .of_all (by decide) rfl (by decide)
  have hspace : "export ".toList = "export".toList ++ [' '] := rfl
  rw [hspace, List.append_assoc, read_append, read_plainWord hexport, Option.bind_some,
    read_append, read_space, Option.bind_some, read_plainWord (plainWord_name hn),
    Form.along_assignment hn]
  rfl

theorem toList_slurmExport (e : String × String) :
    (slurmExport e).toList = "export ".toList ++ (e.1.toList ++ ['=']) ++ e.2.toList := by
  simp [slurmExport]

/-- An unquoted value is exported as it is. -/
theorem read_slurmExport {e : String × String} (hn : IsIdentifier e.1)
    (hv : Literal e.2.toList) :
    read ⟨cs, [], .blank⟩ ((slurmExport e).toList ++ ['\n']) =
      some ⟨cs ++ [exportCommand e], [], .blank⟩ := by
  rw [toList_slurmExport, List.append_assoc, read_append, read_exportName hn, Option.bind_some,
    read_append, read_literal rfl hv, Option.bind_some, read_newline]
  simp [exportCommand]

theorem read_exports {l : List (String × String)} (hn : ∀ e ∈ l, IsIdentifier e.1)
    (hv : ∀ e ∈ l, Literal e.2.toList) :
    read ⟨cs, [], .blank⟩ (lines (l.map slurmExport)).toList =
      some ⟨cs ++ l.map exportCommand, [], .blank⟩ := by
  rw [toList_lines]
  induction l generalizing cs with
  | nil => simp
  | cons e l ih =>
    rw [List.map_cons, List.flatMap_cons, read_append,
      read_slurmExport (hn e List.mem_cons_self) (hv e List.mem_cons_self), Option.bind_some,
      ih (fun a ha => hn a (.tail _ ha)) fun a ha => hv a (.tail _ ha), List.append_assoc]
    rfl

theorem read_modules {l : List String} (h : ∀ m ∈ l, PlainWord m.toList) :
    read ⟨cs, [], .blank⟩ (lines (l.map fun m => "module load " ++ m)).toList =
      some ⟨cs ++ l.map moduleCommand, [], .blank⟩ := by
  have hmodule : PlainWord "module".toList := .of_all (by decide) rfl (by decide)
  have hload : PlainWord "load".toList := .of_all (by decide) rfl (by decide)
  have hline : ∀ m : String, ("module load " ++ m).toList ++ ['\n'] =
      "module".toList ++ ([' '] ++ ("load".toList ++ ([' '] ++ (m.toList ++ ['\n'])))) := by
    intro m
    have hload : "module load ".toList = "module".toList ++ ([' '] ++ ("load".toList ++ [' '])) := rfl
    rw [String.toList_append, hload]
    simp only [List.append_assoc]
  rw [toList_lines]
  induction l generalizing cs with
  | nil => simp
  | cons m l ih =>
    have hm : read ⟨cs, [], .blank⟩ (("module load " ++ m).toList ++ ['\n']) =
        some ⟨cs ++ [moduleCommand m], [], .blank⟩ := by
      rw [hline, read_append, read_plainWord hmodule, Option.bind_some, read_append, read_space,
        Option.bind_some, read_append, read_plainWord hload, Option.bind_some, read_append,
        read_space, Option.bind_some, read_append, read_plainWord (h m List.mem_cons_self),
        Option.bind_some, read_newline]
      rfl
    rw [List.map_cons, List.flatMap_cons, read_append, hm, Option.bind_some,
      ih fun a ha => h a (.tail _ ha), List.append_assoc]
    rfl

/-- What follows the exports begins with an empty line and a comment. -/
def afterExports (job : JobSpec) : List String :=
  ["", "#SBATCH --export=ALL", "# --- Load Modules ---"] ++ modules job ++
    ["", "# --- User Command ---"]

theorem slurmSetup_eq (job : JobSpec) : slurmSetup job =
    slurmHeader job ++ (job.environment.toList.map slurmExport ++ afterExports job) := by
  simp [slurmSetup, afterExports]

theorem read_afterExports (job : JobSpec) (hm : ∀ m ∈ job.modules, PlainWord m.toList) :
    read ⟨cs, [], .blank⟩ (lines (afterExports job)).toList =
      some ⟨cs ++ job.modules.map moduleCommand, [], .blank⟩ := by
  have hfirst : ∀ line ∈ ["", "#SBATCH --export=ALL", "# --- Load Modules ---"],
      IsComment line ∧ '\n' ∉ line.toList := by
    simp only [List.forall_mem_cons]
    exact ⟨⟨.inl rfl, by decide⟩, ⟨.inr rfl, by decide⟩, ⟨.inr rfl, by decide⟩, by simp⟩
  have hlast : ∀ line ∈ ["", "# --- User Command ---"], IsComment line ∧ '\n' ∉ line.toList := by
    simp only [List.forall_mem_cons]
    exact ⟨⟨.inl rfl, by decide⟩, ⟨.inr rfl, by decide⟩, by simp⟩
  rw [afterExports, lines_append, lines_append, String.toList_append, String.toList_append,
    read_append, read_append, read_comments (fun l hl => (hfirst l hl).1) fun l hl =>
      (hfirst l hl).2, Option.bind_some, modules, read_modules hm, Option.bind_some,
    read_comments (fun l hl => (hlast l hl).1) fun l hl => (hlast l hl).2]

/-- Exports that are read as they are meant have plain values. -/
theorem literal_of_reads {l : List (String × String)} {rest : List Char} {t : State}
    (hn : ∀ e ∈ l, IsIdentifier e.1)
    (hrest : ∃ c r, rest = '\n' :: c :: r ∧ isOrdinary c = true ∧ c ≠ ' ' ∧ c ≠ '\t')
    (h : read ⟨cs, [], .blank⟩ ((lines (l.map slurmExport)).toList ++ rest) = some t)
    (hdone : (cs ++ l.map exportCommand).flatten <+: t.done) : ∀ e ∈ l, Literal e.2.toList := by
  induction l generalizing cs with
  | nil => simp
  | cons e l ih =>
    have hname := hn e List.mem_cons_self
    have hnames : ∀ e ∈ l, IsIdentifier e.1 := fun a ha => hn a (.tail _ ha)
    rw [toList_lines, List.map_cons, List.flatMap_cons, ← toList_lines, List.append_assoc] at h
    have hliteral : Literal e.2.toList := by
      have hline := h
      rw [toList_slurmExport, List.append_assoc, List.append_assoc, read_append,
        read_exportName hname, Option.bind_some, List.singleton_append] at hline
      refine literal_of_line rfl hline ?_ ?_
      · refine List.IsPrefix.trans ?_ hdone
        refine ⟨(l.map exportCommand).flatten, ?_⟩
        simp [State.done, exportCommand]
      · cases l with
        | nil =>
          obtain ⟨c, r, rfl, hc⟩ := hrest
          exact ⟨c, r, .inr rfl, hc⟩
        | cons e' l =>
          refine ⟨'e', ?_⟩
          rw [toList_lines, List.map_cons, List.flatMap_cons, toList_slurmExport]
          exact ⟨_, .inl rfl, by decide, by decide, by decide⟩
    rw [read_append, read_slurmExport hname hliteral, Option.bind_some] at h
    refine List.forall_mem_cons.2 ⟨hliteral, ih hnames h ?_⟩
    rwa [← List.append_cons]

theorem slurmDelivers_iff {job : JobSpec} (hnames : ∀ e ∈ job.environment.toList, IsIdentifier e.1)
    (hheader : ∀ line ∈ slurmHeader job, '\n' ∉ line.toList)
    (hmodules : ∀ m ∈ job.modules, PlainWord m.toList) :
    SlurmDelivers job ↔ ∀ e ∈ job.environment.toList, Literal e.2.toList := by
  have hscript : SlurmDelivers job ↔ read {} (lines (slurmSetup job)).toList = some
      ⟨job.environment.toList.map exportCommand ++ job.modules.map moduleCommand, [], .blank⟩ := by
    unfold SlurmDelivers slurm
    rw [lines_append, String.toList_append]
    constructor
    · rintro ⟨text, htext, h⟩
      rwa [← List.append_cancel_right htext] at h
    · exact fun h => ⟨_, rfl, h⟩
  have hsetup : read {} (lines (slurmSetup job)).toList = read ⟨[], [], .blank⟩
      ((lines (job.environment.toList.map slurmExport)).toList ++
        (lines (afterExports job)).toList) := by
    rw [slurmSetup_eq, lines_append, lines_append, String.toList_append, String.toList_append,
      read_append, read_comments (isComment_slurmHeader job) hheader, Option.bind_some]
  rw [hscript, hsetup]
  constructor
  · intro h
    refine literal_of_reads hnames ?_ h ?_
    · rw [toList_lines]
      exact ⟨'#', _, rfl, by decide, by decide, by decide⟩
    · refine ⟨(job.modules.map moduleCommand).flatten, ?_⟩
      simp [State.done]
  · intro h
    rw [read_append, read_exports hnames h, Option.bind_some, read_afterExports job hmodules]
    rfl

/-! ## PBS -/

/-- What ends or breaks an item. -/
def breaksItem (c : Char) : Bool :=
  c == '\n' || c == ',' || c == ' ' || c == '\t' || c == '\x27' || c == '"' || c == '\\'

theorem readList_item {item v : List Char} {rest : List Char}
    (h : ∀ c ∈ v, breaksItem c = false) : readList item (v ++ rest) = readList (item ++ v) rest := by
  induction v generalizing item with
  | nil => rw [List.nil_append, List.append_nil]
  | cons c v ih =>
    have hc := h c List.mem_cons_self
    simp only [breaksItem, Bool.or_eq_false_iff, beq_eq_false_iff_ne] at hc
    obtain ⟨⟨⟨⟨⟨⟨h₁, h₂⟩, h₃⟩, h₄⟩, h₅⟩, h₆⟩, h₇⟩ := hc
    rw [List.cons_append, readList, if_neg h₁, if_neg h₂, if_neg (by simp [h₃, h₄, h₅, h₆, h₇]),
      ih fun d hd => h d (.tail _ hd), List.append_assoc]
    rfl

/-- An item that is read in full has no breaking character. -/
theorem item_of_readList {item v rest : List Char} {r : List (List Char) × List Char}
    (h : readList item (v ++ rest) = some r) (hr : r.1.head? = some (item ++ v)) :
    ∀ c ∈ v, breaksItem c = false := by
  induction v generalizing item with
  | nil => simp
  | cons c v ih =>
    have hshort : r.1.head? ≠ some item := fun he => by
      rw [he] at hr
      simpa using Option.some.inj hr
    rw [List.cons_append, readList] at h
    split at h
    · cases h
      exact absurd rfl hshort
    · split at h
      · obtain ⟨r', -, rfl⟩ := Option.map_eq_some_iff.1 h
        exact absurd rfl hshort
      · split at h
        · cases h
        · rename_i h₁ h₂ h₃
          simp only [not_or] at h₃
          refine List.forall_mem_cons.2 ⟨by simp [breaksItem, h₁, h₂, h₃], ih h ?_⟩
          rw [hr, List.append_assoc]
          rfl

theorem breaksItem_of_isPlain {c : Char} (h : isPlain c = true) (hc : c ≠ ',') :
    breaksItem c = false := by
  simp only [isPlain, Bool.not_eq_true', Bool.or_eq_false_iff, beq_eq_false_iff_ne] at h
  simp [breaksItem, h, hc]

theorem breaksItem_name {n : String} (h : IsIdentifier n) :
    ∀ c ∈ n.toList ++ ['='], breaksItem c = false := by
  intro c hc
  have hword : c.isAlphanum = true ∨ c = '_' ∨ c = '=' := by
    rcases List.mem_append.1 hc with hc | hc
    · exact (h.chars c hc).imp id .inl
    · exact .inr (.inr (List.mem_singleton.1 hc))
  refine breaksItem_of_isPlain (isPlain_of_isAlphanum hword).1 ?_
  rintro rfl
  revert hword
  decide

theorem toList_pbsItem (e : String × String) :
    (pbsItem e).toList = e.1.toList ++ ['='] ++ e.2.toList := by
  simp [pbsItem]

/-- A variable list with its line end. -/
def variableText (l : List (String × String)) : List Char :=
  [','].intercalate (l.map fun e => (pbsItem e).toList)

theorem readList_variables {rest : List Char} :
    ∀ {e : String × String} {l : List (String × String)}, (∀ a ∈ e :: l, IsIdentifier a.1) →
      (readList [] (variableText (e :: l) ++ '\n' :: rest) =
          some ((e :: l).map fun a => (pbsItem a).toList, rest) ↔
        ∀ a ∈ e :: l, ∀ c ∈ a.2.toList, breaksItem c = false) := by
  intro e l hn
  have hitem : ∀ {a : String × String} {r : List Char} {x : List (List Char) × List Char},
      readList [] ((pbsItem a).toList ++ r) = some x → x.1.head? = some (pbsItem a).toList →
        ∀ c ∈ a.2.toList, breaksItem c = false := by
    intro a r x h hx c hc
    exact item_of_readList h hx c (by rw [toList_pbsItem]; simp [hc])
  have hread : ∀ {a : String × String} {r : List Char}, IsIdentifier a.1 →
      (∀ c ∈ a.2.toList, breaksItem c = false) →
        readList [] ((pbsItem a).toList ++ r) = readList (pbsItem a).toList r := by
    intro a r ha hv
    refine readList_item fun c hc => ?_
    rw [toList_pbsItem] at hc
    exact (List.mem_append.1 hc).elim (breaksItem_name ha c) (hv c)
  induction l generalizing e with
  | nil =>
    have htext : variableText [e] = (pbsItem e).toList := by simp [variableText]
    rw [htext, List.forall_mem_singleton]
    constructor
    · exact fun h => hitem h rfl
    · intro h
      rw [hread (hn e List.mem_cons_self) h, readList, if_pos rfl]
      rfl
  | cons e' l ih =>
    have htext : variableText (e :: e' :: l) ++ '\n' :: rest =
        (pbsItem e).toList ++ ',' :: (variableText (e' :: l) ++ '\n' :: rest) := by
      simp [variableText, List.intercalate_cons_cons]
    have hrest := ih fun a ha => hn a (.tail _ ha)
    rw [htext, List.forall_mem_cons]
    constructor
    · intro h
      have hv := hitem h rfl
      rw [hread (hn e List.mem_cons_self) hv, readList, if_neg (by decide), if_pos rfl] at h
      obtain ⟨r, hr, he⟩ := Option.map_eq_some_iff.1 h
      obtain ⟨h₁, h₂⟩ := Prod.mk.inj he
      refine ⟨hv, hrest.1 (hr.trans ?_)⟩
      rw [← (List.cons.inj h₁).2, ← h₂]
    · rintro ⟨hv, hvs⟩
      rw [hread (hn e List.mem_cons_self) hv, readList, if_neg (by decide), if_pos rfl,
        hrest.2 hvs]
      rfl

theorem pbsDelivers_iff {job : JobSpec} (hn : ∀ e ∈ job.environment.toList, IsIdentifier e.1) :
    PbsDelivers job ↔
      ∀ e ∈ job.environment.toList, ∀ c ∈ e.2.toList, breaksItem c = false := by
  unfold PbsDelivers pbs pbsVariables
  cases henv : job.environment.toList with
  | nil => simp
  | cons e l =>
    rw [henv] at hn
    have hscript : (lines (pbsHeader job ++
        ["#PBS -v " ++ ",".intercalate ((e :: l).map pbsItem)] ++ pbsRest job)).toList =
          (lines (pbsHeader job)).toList ++ "#PBS -v ".toList ++
            (variableText (e :: l) ++ '\n' :: (lines (pbsRest job)).toList) := by
      simp only [lines_append, String.toList_append]
      rw [toList_lines ["#PBS -v " ++ ",".intercalate ((e :: l).map pbsItem)], List.flatMap_singleton,
        String.toList_append, String.toList_intercalate, List.map_map]
      simp [variableText, Function.comp_def]
    have hne : e :: l ≠ [] := List.cons_ne_nil e l
    simp only [hne, false_or]
    rw [hscript, ← @readList_variables (lines (pbsRest job)).toList e l hn]
    constructor
    · rintro ⟨text, htext, h⟩
      rwa [← List.append_cancel_left htext] at h
    · exact fun h => ⟨_, rfl, h⟩

/-! ## PJSUB -/

theorem readQuoted_append {v rest : List Char} (h : '"' ∉ v ∧ '\n' ∉ v) :
    readQuoted (v ++ '"' :: rest) = some (v, rest) := by
  induction v with
  | nil => rfl
  | cons c v ih =>
    simp only [List.mem_cons, not_or] at h
    rw [List.cons_append, readQuoted, if_neg (Ne.symm h.1.1), if_neg (Ne.symm h.2.1),
      ih ⟨h.1.2, h.2.2⟩]
    rfl

theorem isPrefixOf?_append (l r : List Char) : l.isPrefixOf? (l ++ r) = some r := by
  induction l with
  | nil => rfl
  | cons c l ih => simp [List.isPrefixOf?, ih]

theorem readPairs_items {rest : List Char} {l : List (String × String)}
    (hn : ∀ e ∈ l, IsIdentifier e.1) (hv : ∀ e ∈ l, Literal e.2.toList) :
    readPairs l.length ((lines (l.map pjsubItem)).toList ++ rest) =
      some (l.map fun e => (e.1.toList, e.2.toList), rest) := by
  rw [toList_lines]
  induction l with
  | nil => rfl
  | cons e l ih =>
    have hname : '"' ∉ e.1.toList ∧ '\n' ∉ e.1.toList := by
      have hc := (hn e List.mem_cons_self).chars
      exact ⟨fun h => absurd (hc _ h) (by decide), fun h => absurd (hc _ h) (by decide)⟩
    have hvalue : '"' ∉ e.2.toList ∧ '\n' ∉ e.2.toList := by
      have hc := (hv e List.mem_cons_self).plain
      exact ⟨fun h => absurd (hc _ h) (by decide), fun h => absurd (hc _ h) (by decide)⟩
    have hline : (pjsubItem e).toList ++ ['\n'] = "#PJM -x \"".toList ++ (e.1.toList ++
        '"' :: ("=\"".toList ++ (e.2.toList ++ '"' :: ("\n".toList ++ [])))) := by
      simp [pjsubItem]
    rw [List.length_cons, List.map_cons, List.flatMap_cons, hline]
    simp only [List.append_assoc, List.cons_append, List.nil_append]
    rw [readPairs, isPrefixOf?_append]
    simp only [bind, Option.bind, readQuoted_append hname, readQuoted_append hvalue,
      isPrefixOf?_append, ih (fun a ha => hn a (.tail _ ha)) fun a ha => hv a (.tail _ ha)]
    rfl

theorem pjsubDelivers {job : JobSpec} (hn : ∀ e ∈ job.environment.toList, IsIdentifier e.1)
    (hv : ∀ e ∈ job.environment.toList, Literal e.2.toList) : PjsubDelivers job := by
  refine ⟨_, ?_, readPairs_items hn hv⟩
  rw [pjsub, lines_append, lines_append, String.toList_append, String.toList_append,
    List.append_assoc]

/-! ## All three -/

theorem unquoted_iff {value : String} :
    Unquoted value ↔ Literal value.toList ∧ ∀ c ∈ value.toList, breaksItem c = false := by
  constructor
  · rintro ⟨hl, hc⟩
    exact ⟨hl, fun c hm => breaksItem_of_isPlain (hl.plain c hm) fun h => hc (h ▸ hm)⟩
  · rintro ⟨hl, hc⟩
    exact ⟨hl, fun hm => absurd (hc _ hm) (by decide)⟩

/-- The environment comes through where no value has to be quoted, and only there. -/
theorem delivers_iff {job : JobSpec} (hnames : ∀ e ∈ job.environment.toList, IsIdentifier e.1)
    (hheader : ∀ line ∈ slurmHeader job, '\n' ∉ line.toList)
    (hmodules : ∀ m ∈ job.modules, PlainWord m.toList) :
    Delivers job ↔ ∀ e ∈ job.environment.toList, Unquoted e.2 := by
  simp only [unquoted_iff]
  constructor
  · rintro ⟨hslurm, hpbs, -⟩ e he
    exact ⟨(slurmDelivers_iff hnames hheader hmodules).1 hslurm e he,
      (pbsDelivers_iff hnames).1 hpbs e he⟩
  · intro h
    have hliteral : ∀ e ∈ job.environment.toList, Literal e.2.toList := fun e he => (h e he).1
    exact ⟨(slurmDelivers_iff hnames hheader hmodules).2 hliteral,
      (pbsDelivers_iff hnames).2 fun e he => (h e he).2, pjsubDelivers hnames hliteral⟩

/-- A job with the environment `l`. -/
def jobWith (l : List (String × String)) : JobSpec where
  name := "tierkreis-run"
  walltime := "01:00:00"
  resources := { nodes := 1 }
  queue := some "small"
  mpi := some {}
  command := "'tkr-worker' '/tmp/tkr-args'"
  environment := HashMap.ofEntries l
  modules := ["gcc/12.2"]

theorem header_jobWith (l : List (String × String)) :
    ∀ line ∈ slurmHeader (jobWith l), '\n' ∉ line.toList := by
  have h : slurmHeader (jobWith l) = slurmHeader (jobWith []) := rfl
  rw [h]
  decide

theorem modules_jobWith (l : List (String × String)) :
    ∀ m ∈ (jobWith l).modules, PlainWord m.toList :=
  List.forall_mem_singleton.2 (.of_all (by decide) rfl (by decide))

theorem isIdentifier_of_all {name : String} (hne : name.toList ≠ [])
    (hchars : name.toList.all (fun c => c.isAlphanum || c == '_') = true)
    (hfirst : ∀ c, name.toList.head? = some c → c.isDigit = false) : IsIdentifier name where
  ne_nil := hne
  chars := fun c hc => by simpa using List.all_eq_true.1 hchars c hc
  first := hfirst

theorem isIdentifier_message : IsIdentifier "MESSAGE" :=
  isIdentifier_of_all (by decide) rfl (by rintro c ⟨⟩; rfl)

/-- A tilde that begins nothing stands for itself. -/
theorem literal_tilde : Literal "k=~root".toList where
  plain := List.all_eq_true.1 (by decide)
  tilde := by
    intro p r h
    rcases p with _ | ⟨a, _ | ⟨b, _ | ⟨c, p⟩⟩⟩
    · simp at h
    · simp at h
    · obtain ⟨rfl, rfl, -⟩ : 'k' = a ∧ '=' = b ∧ _ := by simpa using h
      rfl
    · have hmem : '~' ∈ ['r', 'o', 'o', 't'] := by
        obtain ⟨-, -, -, hrest⟩ : 'k' = a ∧ '=' = b ∧ '~' = c ∧
            ['r', 'o', 'o', 't'] = p ++ '~' :: r := by simpa using h
        simp [hrest]
      exact absurd hmem (by decide)

/-- Patterns, a tilde that begins nothing and the trace context of a run come through. -/
theorem delivers_jobWith : Delivers (jobWith [("FILES", "x[0]/*.csv"), ("KEY", "k=~root"),
    ("TRACEPARENT", "00-0af7651916cd43dd8448eb211c80319c-b7ad6b7169203331-01")]) := by
  have henv : (jobWith [("FILES", "x[0]/*.csv"), ("KEY", "k=~root"), ("TRACEPARENT",
      "00-0af7651916cd43dd8448eb211c80319c-b7ad6b7169203331-01")]).environment.toList = _ :=
    HashMap.toList_ofEntries (by decide)
  refine (delivers_iff ?names (header_jobWith _) (modules_jobWith _)).2 ?values
  case names =>
    rw [henv]
    simp only [List.forall_mem_cons]
    refine ⟨?_, ?_, ?_, by simp⟩
    all_goals exact isIdentifier_of_all (by decide) rfl (by rintro c ⟨⟩; rfl)
  case values =>
    rw [henv]
    simp only [List.forall_mem_cons]
    exact ⟨⟨.of_all rfl, by decide⟩, ⟨literal_tilde, by decide⟩, ⟨.of_all rfl, by decide⟩, by simp⟩

/-- A value with a space: the shell exports what stands before the space, and the list of the
PBS script ends there. -/
theorem not_delivers_space :
    ¬ SlurmDelivers (jobWith [("MESSAGE", "two words")]) ∧
      ¬ PbsDelivers (jobWith [("MESSAGE", "two words")]) ∧
      ¬ Delivers (jobWith [("MESSAGE", "two words")]) := by
  have hspace : ' ' ∈ "two words".toList := by decide
  have henv : (jobWith [("MESSAGE", "two words")]).environment.toList =
      [("MESSAGE", "two words")] := rfl
  have hname : ∀ e ∈ (jobWith [("MESSAGE", "two words")]).environment.toList,
      IsIdentifier e.1 := by
    rw [henv, List.forall_mem_singleton]
    exact isIdentifier_message
  have hpbs : ¬ PbsDelivers (jobWith [("MESSAGE", "two words")]) := fun h =>
    absurd ((pbsDelivers_iff hname).1 h _ List.mem_cons_self ' ' hspace) (by decide)
  have hslurm : ¬ SlurmDelivers (jobWith [("MESSAGE", "two words")]) := fun h =>
    absurd (((slurmDelivers_iff hname (header_jobWith _) (modules_jobWith _)).1 h _
      List.mem_cons_self).plain ' ' hspace) (by decide)
  exact ⟨hslurm, hpbs, fun h => hslurm h.slurm⟩

end JobScript

end Tierkreis
