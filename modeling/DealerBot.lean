import DealerBot.Foundations.CString
import DealerBot.Foundations.Calendar
import DealerBot.Foundations.Codec
import DealerBot.Foundations.Effect
import DealerBot.Foundations.Framing
import DealerBot.Foundations.Http
import DealerBot.Foundations.Machine
import DealerBot.Foundations.Regex
import DealerBot.Foundations.RingBuffer
import DealerBot.Foundations.Sequencing
import DealerBot.Settings.Dto
import DealerBot.Settings.Store
import DealerBot.Restinio.WriteGroup
import DealerBot.Restinio.Coordinator
import DealerBot.Restinio.Pipeline
import DealerBot.Restinio.Connection
import DealerBot.Restinio.Effects
import DealerBot.Restinio.DateField
import DealerBot.Restinio.ResponseBuilder
import DealerBot.Restinio.ParserCallbacks
import DealerBot.Restinio.Path2Regex
import DealerBot.Restinio.RouteRegex
import DealerBot.Restinio.Route
import DealerBot.Restinio.Utf8Checker
import DealerBot.Restinio.TargetPath
import DealerBot.Restinio.Express
import DealerBot.Server.World
import DealerBot.Server.Devices
import DealerBot.Server.Handlers
import DealerBot.Server.Router
import DealerBot.Server.Runs
import DealerBot.Properties.Persistence
import DealerBot.Properties.Message
import DealerBot.Properties.Wire
import DealerBot.Properties.Responses
import DealerBot.Properties.Reading
import DealerBot.Properties.Writing
import DealerBot.Properties.Notification
import DealerBot.Properties.Provenance
import DealerBot.Properties.Pipelining
import DealerBot.Properties.Requests
import DealerBot.Properties.Boundary
import DealerBot.Properties.Routing
import DealerBot.Properties.Delivery
import DealerBot.Properties.Replies
import DealerBot.Properties.Service
import DealerBot.Properties.Assembly
import DealerBot.Properties.Parsing
