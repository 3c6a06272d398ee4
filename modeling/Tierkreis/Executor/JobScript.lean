import Tierkreis.Asset

/-!
# Job scripts

What a scheduler wrapper submits: the job and the three templates that write it
as a script. A template is the list of its lines. An optional field writes its
lines when it is there and not empty or zero, as the template's conditions have
it; maps are written in the order of their entries.
-/

namespace Tierkreis

open Lib

structure HPCResourceSpec where
  nodes : Nat
  coresPerNode : Option Nat := none
  memoryPerNodeGb : Option Nat := none
  gpusPerNode : Option Nat := none
  qpus : Option (List String) := none
  gres : Option (List String) := none

structure UserSpec where
  mail : Option String := none

structure MpiSpec where
  proc : Option String := none
  maxProcPerNode : Option String := none

structure ContainerSpec where
  image : String
  engine : String
  name : Option String := none
  extraArgs : HashMap String (Option String) := ∅
  envFile : Option String := none

structure JobSpec where
  name : String
  walltime : String
  resources : HPCResourceSpec
  queue : Option String := none
  account : Option String := none
  user : Option UserSpec := none
  mpi : Option MpiSpec := none
  container : Option ContainerSpec := none
  command : String
  environment : HashMap String String := ∅
  modules : List String := []
  outputPath : Option String := none
  errorPath : Option String := none
  extraSchedulerArgs : HashMap String (Option String) := ∅

namespace JobScript

/-- A script from its lines. -/
def lines (l : List String) : String := String.join (l.map fun line => line ++ "\n")

/-- The lines of an optional field, when a condition of the template on it holds. -/
def whenText (value : Option String) (f : String → List String) : List String :=
  match value with
  | none => []
  | some v => if v = "" then [] else f v

def whenNumber (value : Option Nat) (f : String → List String) : List String :=
  match value with
  | none => []
  | some n => if n = 0 then [] else f (toString n)

def whenList (value : Option (List String)) (f : String → List String) : List String :=
  match value with
  | none => []
  | some l => if l = [] then [] else f (",".intercalate l)

/-- The last line: the command, under `mpiexec` in an MPI job. -/
def commandLine (job : JobSpec) : String :=
  match job.mpi with
  | some _ => "mpiexec " ++ job.command
  | none => job.command

/-- An option with its value, if it has one. -/
def argument (e : String × Option String) (separator : String) : String :=
  match e.2 with
  | none => e.1
  | some v => if v = "" then e.1 else e.1 ++ separator ++ v

def modules (job : JobSpec) : List String := job.modules.map fun m => "module load " ++ m

/-! ## `slurm.j2` -/

/-- What stands before the environment. -/
def slurmHeader (job : JobSpec) : List String :=
  ["#!/bin/sh", "",
    "# SLURM Job Script generated by TIERKREIS", "",
    "# --- Core Job Specifications ---",
    "#SBATCH --job-name=" ++ job.name,
    "#SBATCH --time=" ++ job.walltime,
    "#SBATCH --nodes=" ++ toString job.resources.nodes] ++
  whenNumber job.resources.coresPerNode (fun n => ["#SBATCH --cpus-per-task=" ++ n]) ++
  whenNumber job.resources.memoryPerNodeGb (fun n => ["#SBATCH --mem=" ++ n ++ "G"]) ++
  whenNumber job.resources.gpusPerNode (fun n => ["#SBATCH --gpus-per-node=" ++ n]) ++
  whenList job.resources.gres (fun l => ["#SBATCH --gres=" ++ l]) ++
  whenList job.resources.qpus (fun l => ["#SBATCH --qpu=" ++ l]) ++
  [""] ++
  whenText job.queue (fun q => ["#SBATCH --partition=" ++ q]) ++
  ["", "# --- User Details ---"] ++
  whenText job.account (fun a => ["#SBATCH --account=" ++ a]) ++
  whenText (job.user.bind UserSpec.mail) (fun m =>
    ["#SBATCH --mail-type=END", "#SBATCH --mail-user=" ++ m]) ++
  ["", "# --- Output and Error Handling ---"] ++
  whenText job.errorPath (fun p => ["#SBATCH --error=" ++ p]) ++
  whenText job.outputPath (fun p => ["#SBATCH --output=" ++ p]) ++
  ["", "# --- MPI ---"] ++
  whenText (job.mpi.bind MpiSpec.proc) (fun p => ["#SBATCH --ntasks=" ++ p]) ++
  whenText (job.mpi.bind MpiSpec.maxProcPerNode) (fun p => ["#SBATCH --ntasks-per-node=" ++ p]) ++
  ["", "# --- User-Specific Arguments ---"] ++
  (job.extraSchedulerArgs.toList.map fun e => "#SBATCH " ++ argument e " ") ++
  ["", "# --- Environment Setup ---"]

def slurmExport (e : String × String) : String := "export " ++ e.1 ++ "=" ++ e.2

/-- Everything before the command. -/
def slurmSetup (job : JobSpec) : List String :=
  slurmHeader job ++ job.environment.toList.map slurmExport ++
    ["", "#SBATCH --export=ALL", "# --- Load Modules ---"] ++ modules job ++
    ["", "# --- User Command ---"]

def slurm (job : JobSpec) : String := lines (slurmSetup job ++ [commandLine job])

/-! ## `pbs.j2` -/

/-- A condition on lines of its own leaves a blank line before and after what it holds. -/
def spaced (l : List String) : List String :=
  match l with
  | [] => [""]
  | l => [""] ++ l ++ [""]

def pbsHeader (job : JobSpec) : List String :=
  ["#!/bin/sh", "",
    "# PBS Job Script generated by TIERKREIS", "",
    "# --- Core Job Specifications ---",
    "#PBS -N " ++ job.name,
    "#PBS -l walltime=" ++ job.walltime,
    "#PBS -l nodes=" ++ toString job.resources.nodes] ++
  spaced (whenNumber job.resources.coresPerNode fun n => ["#PBS -l ncpus=" ++ n]) ++
  spaced (whenNumber job.resources.memoryPerNodeGb fun n => ["#PBS -l mem=" ++ n ++ "gb"]) ++
  spaced (whenNumber job.resources.gpusPerNode fun n => ["#PBS -l ngpus=" ++ n]) ++
  [""] ++
  whenText job.queue (fun q => ["#PBS -q " ++ q]) ++
  ["", "# --- User Details ---"] ++
  whenText job.account (fun a => ["#PBS -A " ++ a]) ++
  whenText (job.user.bind UserSpec.mail) (fun m => ["#PBS -m e", "#PBS -M " ++ m]) ++
  ["", "# --- Output and Error Handling ---"] ++
  (match whenText job.errorPath fun p => ["#PBS -e " ++ p] with
    | [] => ["#PBS -j oe"]
    | l => l) ++
  (match whenText job.outputPath fun p => ["#PBS -o " ++ p] with
    | [] => ["#PBS -o ./" ++ job.name ++ ".o"]
    | l => l) ++
  ["", "# --- MPI ---"] ++
  (match job.mpi with
    | some _ => ["# MPI is covered in -l resource declaration"]
    | none => []) ++
  [""] ++
  spaced (whenText (job.mpi.bind MpiSpec.maxProcPerNode) fun p => ["#PBS -l mpiprocs=" ++ p]) ++
  ["# --- User-Specific Arguments ---"] ++
  (job.extraSchedulerArgs.toList.map fun e => "#PBS " ++ argument e " ") ++
  ["", "# --- Environment Setup ---", "#PBS -V"]

def pbsItem (e : String × String) : String := e.1 ++ "=" ++ e.2

/-- The variable list of the job, if it has variables. -/
def pbsVariables (job : JobSpec) : List String :=
  match job.environment.toList with
  | [] => []
  | l => ["#PBS -v " ++ ",".intercalate (l.map pbsItem)]

def pbsContainer (job : JobSpec) : List String :=
  match job.container with
  | none => []
  | some c =>
    ["", "#PBS -l container_engine=" ++ c.engine, "#PBS -l container_image=" ++ c.image] ++
    whenText c.name (fun n => ["#PBS -l container_name=" ++ n]) ++
    (c.extraArgs.toList.map fun e => "#PBS -l " ++ argument e "=") ++
    whenText c.envFile (fun p => ["#PBS -l " ++ c.engine ++ "_env_file=" ++ p])

def pbsRest (job : JobSpec) : List String :=
  ["", "# --- Container ---"] ++ pbsContainer job ++ ["", "# --- Load Modules ---"] ++
    modules job ++ ["", "# --- User Command ---", commandLine job]

def pbs (job : JobSpec) : String := lines (pbsHeader job ++ pbsVariables job ++ pbsRest job)

/-! ## `pjsub.j2` -/

def pjsubHeader (job : JobSpec) : List String :=
  ["#!/bin/bash", "#",
    "# PJSUB Job Script generated by TIERKREIS", "",
    "# --- Core Job Specifications ---",
    "#PJM -N " ++ job.name,
    "#PJM -L \"elapse=" ++ job.walltime ++ "\"",
    "#PJM -L \"node=" ++ toString job.resources.nodes ++ "\""] ++
  whenNumber job.resources.memoryPerNodeGb (fun n => ["#PJM -L \"node-mem=" ++ n ++ "Gi\""]) ++
  whenNumber job.resources.gpusPerNode (fun n => ["#PJM -L \"gpu=" ++ n ++ "\""]) ++
  whenText job.queue (fun q => ["#PJM -L \"rscgrp=" ++ q ++ "\""]) ++
  ["", "# --- User Details ---"] ++
  whenText job.account (fun a => ["#PJM -g " ++ a]) ++
  whenText (job.user.bind UserSpec.mail) (fun m => ["#PJM -m e", "#PJM --mail-list " ++ m]) ++
  ["", "# --- Output and Error Handling ---"] ++
  (match whenText job.errorPath fun p => ["#PJM -e " ++ p] with
    | [] => ["#PJM -j"]
    | l => l) ++
  [""] ++
  (match whenText job.outputPath fun p => ["#PJM -o " ++ p] with
    | [] => ["#PJM -o ./" ++ job.name ++ ".out"]
    | l => l) ++
  ["", "# --- MPI ---"] ++
  whenText (job.mpi.bind MpiSpec.proc) (fun p => ["#PJM --mpi \"proc=" ++ p ++ "\""]) ++
  whenText (job.mpi.bind MpiSpec.maxProcPerNode) (fun p =>
    ["#PJM --mpi \"max-proc-per-node=" ++ p ++ "\""]) ++
  ["", "# --- User-Specific Arguments ---"] ++
  (job.extraSchedulerArgs.toList.map fun e => "#PJM " ++ argument e " ") ++
  (if job.extraSchedulerArgs.contains "-z" then [] else ["#PJM -z jid"]) ++
  ["", "# --- Environment Setup ---"]

def pjsubItem (e : String × String) : String := "#PJM -x \"" ++ e.1 ++ "\"=\"" ++ e.2 ++ "\""

def pjsubRest (job : JobSpec) : List String :=
  ["", "# --- Load Modules ---"] ++ modules job ++ ["", "# --- User Command ---", commandLine job]

def pjsub (job : JobSpec) : String :=
  lines (pjsubHeader job ++ job.environment.toList.map pjsubItem ++ pjsubRest job)

end JobScript

end Tierkreis
