/-!
# Settings

`hub_api/config.py`, the fields the modelled code reads, with their defaults.
Timestamps are microseconds since the epoch; a `timedelta(seconds=n)` is
`seconds n`.
-/
namespace SpikeHub.L1

abbrev Time := Int

def seconds (n : Int) : Time := n * 1000000

/-- `timedelta(days=1)` -/
def day : Time := seconds 86400

/-- `str(uuid)` is injective, so an id stands for its text as well. -/
abbrev Uuid := Nat

def MIB : Int := 1024 * 1024
def GIB : Int := 1024 * MIB

inductive PublishingGate
  | invite | «open»
deriving DecidableEq, Repr

/-- mirrors hub_api/config.py:24-100 -/
structure Settings where
  footprintCapBytes : Int := 10 * GIB
  volumeFreeFloorBytes : Int := 5 * GIB
  defaultStorageLimit : Int := GIB
  maxArtifactBytes : Int := 256 * MIB
  maxModelsPerUser : Int := 50
  maxVersionsPerModel : Int := 20
  maxUploadsPerDay : Int := 50
  reservationTtlSeconds : Int := 900
  sessionAbsoluteTtlSeconds : Int := 30 * 24 * 3600
  sessionIdleTtlSeconds : Int := 7 * 24 * 3600
  accessTokenTtlSeconds : Int := 3600
  refreshTokenTtlSeconds : Int := 90 * 24 * 3600
  publishingGate : PublishingGate := .invite
  requireVerification : Bool := true
  artifactPublicBase : String := "https://cdn.spikeforge.net"
deriving DecidableEq, Repr

end SpikeHub.L1
