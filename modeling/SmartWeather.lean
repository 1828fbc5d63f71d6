import SmartWeather.Library.Runs
import SmartWeather.Library.Binary
import SmartWeather.Library.Decimal
import SmartWeather.Library.Sorting
import SmartWeather.Database.Firestore
import SmartWeather.Database.SensorData
import SmartWeather.Database.PublishSubscribe
import SmartWeather.Database.WeakDelegates
import SmartWeather.Database.MalformedDocuments
import SmartWeather.Screens.Conversions
import SmartWeather.Screens.DeliveryOrder
import SmartWeather.Screens.WeatherOrder
import SmartWeather.Screens.WeatherErrors
import SmartWeather.Screens.Advice
import SmartWeather.Screens.MoodPicture
import SmartWeather.Screens.ColorReadings
import SmartWeather.Screens.NewestFirst
import SmartWeather.Screens.AnimatedImage
import SmartWeather.Sensor.Format
import SmartWeather.Sensor.Modes
import SmartWeather.Sensor.Interrupts
import SmartWeather.Sensor.Temperature
import SmartWeather.Firestore.InitialEvents
import SmartWeather.Firestore.ImmutableSortedMap
import SmartWeather.Firestore.ImmutableDocumentSet
import SmartWeather.System.EndToEnd
