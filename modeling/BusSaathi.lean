import BusSaathi.KeyedTable
import BusSaathi.StatementPrograms
import BusSaathi.InterleavedPrograms
import BusSaathi.RouteStore
import BusSaathi.BusStore
import BusSaathi.LinkedMap
import BusSaathi.WriteFailures
import BusSaathi.ConcurrentStore
import BusSaathi.SampleSeeding
import BusSaathi.ConvertedBuses
import BusSaathi.AppStartup
import BusSaathi.KeyGroups
import BusSaathi.RouteGroups
import BusSaathi.TimeUtils
import BusSaathi.NextBuses
import BusSaathi.TrackingScreen
import BusSaathi.HomeScreen
import BusSaathi.MapUtils
import BusSaathi.ProgramInterference
import BusSaathi.NextBusesCall
import BusSaathi.RouteReads
import BusSaathi.AppSystem
import BusSaathi.CurrentBuses
import BusSaathi.CallTurns
import BusSaathi.ShownBuses
import BusSaathi.StoreIntegrity
import BusSaathi.TrackedTrips
import BusSaathi.ClockTexts
import BusSaathi.ConverterRuns
import BusSaathi.Localizations
import BusSaathi.DatabaseOpening
