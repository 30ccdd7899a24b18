import Wrongthink.Concurrent.Program
import Wrongthink.Concurrent.Pool
import Wrongthink.Relational.Serial
import Wrongthink.Store.Tables
import Wrongthink.Store.Statement
import Wrongthink.Service.Protocol
import Wrongthink.Service.World
import Wrongthink.Service.DBPostgres
import Wrongthink.Service.WrongthinkServiceImpl
import Wrongthink.Service.Frame
import Wrongthink.Users.FirstAdmin
import Wrongthink.Bans.Gate
import Wrongthink.Service.Serve
import Wrongthink.Users.Escalation
import Wrongthink.Messages.Sends
import Wrongthink.Messages.History
import Wrongthink.Messages.Order
import Wrongthink.Messages.Views
import Wrongthink.Channels.Confinement
import Wrongthink.Concurrent.Phase
import Wrongthink.Concurrent.Wakeup
import Wrongthink.Live.Listening
import Wrongthink.Live.Delivery
import Wrongthink.Bans.Duration
import Wrongthink.Bans.LastBans
import Wrongthink.Bans.Enforcement
import Wrongthink.Bans.Proceeding
import Wrongthink.Bans.Hosts
import Wrongthink.Concurrent.CheckThenAct
import Wrongthink.Bans.Duplicates
import Wrongthink.Service.Inserts
import Wrongthink.Users.Bootstrap
import Wrongthink.Channels.Meeting
import Wrongthink.Messages.Failure
import Wrongthink.Creation.Calls
import Wrongthink.Creation.Answers
import Wrongthink.Creation.Handlers
import Wrongthink.Creation.Listings
import Wrongthink.Users.Registration
import Wrongthink.Concurrent.Paired
import Wrongthink.Backends.Renaming
import Wrongthink.Backends.Steps
import Wrongthink.Backends.Calls
import Wrongthink.Backends.Mirror
import Wrongthink.Sequential.While
import Wrongthink.Users.Dashes
import Wrongthink.Bans.Lookup
import Wrongthink.Messages.Streams
import Wrongthink.Live.Spurious
import Wrongthink.Creation.Fidelity
import Wrongthink.Bans.Collisions
import Wrongthink.Concurrent.Linearization
import Wrongthink.Atomicity.Alone
import Wrongthink.Atomicity.Points
import Wrongthink.Atomicity.Repeats
import Wrongthink.Atomicity.Linearizable
import Wrongthink.Atomicity.Races
import Wrongthink.Concurrent.Expansion
import Wrongthink.Locking.Memory
import Wrongthink.Locking.Refinement
import Wrongthink.Locking.Exclusion
import Wrongthink.Concurrent.InStep
import Wrongthink.Secrecy.Resemblance
import Wrongthink.Secrecy.Noninterference
import Wrongthink.Lifecycle.Schema
import Wrongthink.Lifecycle.Lives
import Wrongthink.Channels.Cache
import Wrongthink.Users.Accounts
