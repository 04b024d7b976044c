import RiscvPerfSim.Source.PerfSim

/-!
# The report

What `run` writes to `Log.txt` behind its loop.
-/

namespace RiscvPerfSim

def reportLine (label value : String) : String := label ++ value ++ "\n"

def HazardUnit.dump (hu : HazardUnit) : String :=
  reportLine "bypasses_wb_ex: " (toString hu.bypassesWbEx.toNat) ++
    reportLine "bypasses_mem_ex: " (toString hu.bypassesMemEx.toNat) ++
    reportLine "pipeline stops: " (toString hu.stops.toNat) ++
    reportLine "branches: " (toString hu.branches.toNat)

/-- `executionTime` is the wall clock around the loop, and `kips` a quotient in floating point. -/
def PerfSim.dump (executionTime kips : String) (s : PerfSim) : String :=
  reportLine "ic : " (toString s.ic) ++
    reportLine "clocks : " (toString s.clocks) ++
    reportLine "execution time :" (executionTime ++ "ns") ++
    reportLine "KIPS : " kips ++
    s.hu.dump

end RiscvPerfSim
