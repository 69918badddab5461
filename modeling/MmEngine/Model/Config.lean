import MmEngine.Model.Events

/-!
# The engine's configuration

The record `EngineConfig::load` fills (src/common/config.hpp:9-29), with the defaults
the source gives its members.
-/

set_option autoImplicit false

namespace MmEngine.Model

/-- SRCLINE: src/common/config.hpp:9-29 -/
structure EngineConfig where
  minimumSpread : ℚ := 5 / 100
  orderSpread : ℚ := 2 / 100
  tickSize : ℚ := 1 / 1000
  orderQty : ℚ := 1
  bookDepth : ℤ := 5
  account : Text := "REM22479".toList
  sender : Text := []
  fixCfg : Text := "config/fix_config.cfg".toList
  symbolsFile : Text := "config/Actives.txt".toList
  strategyCore : ℤ := 2
  fixCore : ℤ := 3
  metricsPort : ℤ := 9091
  lmdbPath : Text := "data/lmdb".toList
  snapshotIntervalMs : ℤ := 1000
  dryRun : Bool := false
  symbols : List Text := []
  deriving DecidableEq

end MmEngine.Model
