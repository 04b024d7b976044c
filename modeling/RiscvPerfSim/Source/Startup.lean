import RiscvPerfSim.Source.ElfManager
import RiscvPerfSim.Source.PerfSim

/-!
# Startup

`ElfManager::ElfManager`, the constructor of `PerfSim` and `main`.  The answers of
libelf and of the operating system are parameters.
-/

namespace RiscvPerfSim

def EV_NONE : BitVec 32 := 0

def ELF_K_ELF : BitVec 32 := 3

def ELFCLASSNONE : BitVec 32 := 0

def ELFCLASS32 : BitVec 32 := 1

structure Ehdr where
  eEntry : BitVec 64
  deriving DecidableEq

structure Elf (φ : Type) where
  kind : BitVec 32
  getehdr : Option Ehdr
  getclass : BitVec 32
  file : ElfFile φ

/-- The calls that the constructor makes; `open` is given the path. -/
structure LibElf (φ : Type) where
  version : BitVec 32
  openPath : String → Option φ
  elfBegin : φ → Option (Elf φ)

/-- The process leaves with a message, or a constructor or `run` throws. -/
inductive Failure where
  | exits (message : String)
  | raises (error : Error)
  deriving DecidableEq

def Failure.ofError {α : Type} : Except Error α → Except Failure α
  | .ok a => .ok a
  | .error e => .error (.raises e)

structure ElfManager (φ : Type) where
  entry : BitVec 32
  e : Elf φ
  fd : φ

variable {φ : Type}

/-- The constructor; for a file of another class `entry` keeps its initialiser. -/
def ElfManager.construct (lib : LibElf φ) (path : String) : Except Failure (ElfManager φ) :=
  if lib.version = EV_NONE then
    .error (.exits " ELF library initialization failed : %s ")
  else
    match lib.openPath path with
    | none => .error (.exits " open \"%s \" failed ")
    | some fd =>
        match lib.elfBegin fd with
        | none => .error (.exits " elf_begin () failed : %s . ")
        | some e =>
            if e.kind ≠ ELF_K_ELF then
              .error (.exits " \"%s \" is not an ELF object . ")
            else
              match e.getehdr with
              | none => .error (.exits " getehdr () failed : %s . ")
              | some ehdr =>
                  if e.getclass = ELFCLASSNONE then
                    .error (.exits " getclass () failed : %s . ")
                  else
                    .ok {
                      entry := if e.getclass = ELFCLASS32 then ehdr.eEntry.setWidth 32 else 0
                      e := e
                      fd := fd }

namespace PerfSim

/-- `PerfSim::PerfSim`: the file is opened and loaded before the registers are set up. -/
def ofPath (config : Config) (lib : LibElf φ) (path : String) : Except Failure PerfSim := do
  let elf ← ElfManager.construct lib path
  let memory ← Failure.ofError (ElfManager.load elf.e.file elf.fd (.ofConfig config))
  Failure.ofError (construct config memory.bytes elf.entry)

/-- `main`, with a bound on the rounds of `run`. -/
def main (env : Env) (lib : LibElf φ) (fuel : Nat) : Option (Except Failure PerfSim) :=
  match ofPath env.config lib "loop" with
  | .error e => some (.error e)
  | .ok s => ((loop env).run fuel s).map Failure.ofError

end PerfSim

end RiscvPerfSim
