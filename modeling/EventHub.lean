import EventHub.Lib.Lts
import EventHub.Lib.Mealy
import EventHub.Lib.OrderedList
import EventHub.Proofs.SchedulerProcess
import EventHub.Proofs.SchedulerRuns
import EventHub.Proofs.TaskRestore
import EventHub.Proofs.TaskContexts
import EventHub.Proofs.TaskDeadlines
import EventHub.Proofs.TaskPeriodic
import EventHub.Proofs.TaskRuns
import EventHub.Proofs.BusQueue
import EventHub.Proofs.BusGuards
import EventHub.Proofs.BusRecords
import EventHub.Proofs.BusPolls
import EventHub.Proofs.BusRegistry
import EventHub.Proofs.BusDispatcher
import EventHub.Proofs.BusPromises
import EventHub.Proofs.CalendarStep
import EventHub.Proofs.CalendarForward
import EventHub.Proofs.CalendarPublish
import EventHub.Proofs.CalendarFuture
import EventHub.Proofs.CalendarObserver
import EventHub.Proofs.CalendarAlone
import EventHub.Proofs.CalendarProvider
import EventHub.Proofs.HubPassive
import EventHub.Proofs.HubLifecycle
import EventHub.Proofs.RunLoop
import EventHub.Proofs.HubLoop
import EventHub.Proofs.LoopRounds
import EventHub.Proofs.LoopEnds
import EventHub.Proofs.HubStopRequest
import EventHub.Proofs.Milliseconds
import EventHub.Calendar.Backlog
import EventHub.Proofs.CalendarBacklog
