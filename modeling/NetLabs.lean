import NetLabs.Lib.CText
import NetLabs.Lib.Decimal
import NetLabs.Lib.Scanf
import NetLabs.Lib.Transition
import NetLabs.Lib.LockProg
import NetLabs.Lib.Table
import NetLabs.Lib.Double
import NetLabs.Lib.Footprint
import NetLabs.Lib.Simulation
import NetLabs.Lib.Buffer
import NetLabs.Lib.Columns
import NetLabs.Conferencing.Message
import NetLabs.Conferencing.Codec
import NetLabs.Conferencing.User
import NetLabs.Conferencing.Database
import NetLabs.Conferencing.Server
import NetLabs.Conferencing.Effects
import NetLabs.Conferencing.Serving
import NetLabs.Conferencing.Runs
import NetLabs.Conferencing.LockDiscipline
import NetLabs.Conferencing.ActiveList
import NetLabs.Conferencing.Authority
import NetLabs.Conferencing.Client
import NetLabs.Conferencing.Admin
import NetLabs.Conferencing.Framing
import NetLabs.Conferencing.Notices
import NetLabs.Conferencing.Link
import NetLabs.Conferencing.Agreement
import NetLabs.Conferencing.TypedLines
import NetLabs.Conferencing.Credentials
import NetLabs.Conferencing.Loading
import NetLabs.Conferencing.Restart
import NetLabs.Conferencing.Frame
import NetLabs.Conferencing.Logins
import NetLabs.Conferencing.Peers
import NetLabs.Conferencing.Relay
import NetLabs.Conferencing.Membership
import NetLabs.Conferencing.Accounts
import NetLabs.Conferencing.Identity
import NetLabs.Conferencing.Ghosts
import NetLabs.Conferencing.LoginRace
import NetLabs.Conferencing.RwMutex
import NetLabs.Conferencing.Commute
import NetLabs.Conferencing.Capacity
import NetLabs.Conferencing.Switching
import NetLabs.Conferencing.Promoted
import NetLabs.Conferencing.Threads
import NetLabs.Conferencing.Logout
import NetLabs.Conferencing.Joins
import NetLabs.Conferencing.Manager
import NetLabs.Conferencing.Managed
import NetLabs.Conferencing.Interleaved
import NetLabs.Conferencing.Frozen
import NetLabs.Conferencing.Conversations
import NetLabs.Conferencing.Replies
import NetLabs.Conferencing.Lifecycle
import NetLabs.Conferencing.Connections
import NetLabs.Conferencing.UserArray
import NetLabs.Conferencing.Listings
import NetLabs.FileTransfer.Packet
import NetLabs.FileTransfer.Transfer
import NetLabs.FileTransfer.Malformed
import NetLabs.FileTransfer.LateAcks
import NetLabs.FileTransfer.Lockstep
import NetLabs.FileTransfer.Session
import NetLabs.FileTransfer.Acknowledgements
import NetLabs.FileTransfer.Stuck
import NetLabs.FileTransfer.Timer
import NetLabs.FileTransfer.PlainTransfer
import NetLabs.FileTransfer.Prompt
import NetLabs.FileTransfer.Delivery
