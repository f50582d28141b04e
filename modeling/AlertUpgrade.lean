import AlertUpgrade.Records
import AlertUpgrade.Store
import AlertUpgrade.Prog
import AlertUpgrade.Upgrade
import AlertUpgrade.Effects
import AlertUpgrade.Steps
import AlertUpgrade.Migration
import AlertUpgrade.Keys
import AlertUpgrade.Block
import AlertUpgrade.App
import AlertUpgrade.Run
import AlertUpgrade.Migrates
import AlertUpgrade.Frame
import AlertUpgrade.Retry
import AlertUpgrade.Guard
import AlertUpgrade.Interleave
import AlertUpgrade.Rely
import AlertUpgrade.Race
import AlertUpgrade.Converge
import AlertUpgrade.Concurrent
import AlertUpgrade.Orders
import AlertUpgrade.Runs
import AlertUpgrade.Recovery
import AlertUpgrade.Calls
import AlertUpgrade.Answered
